/-
The files of a batch are isolated from each other.

One word source serves all the files of a run, and files are written while
the run goes on. Still, what one file holds shows in no other. Take two
trees that differ in nothing but the contents of some files (`DifferIn`).
Runs of one batch on them get to the same names in the same order, and the
entries that they find there are twins (`Twins`): the same, or two files
with a text each. A pass draws the same words for both texts, so the twins
behind them are taken up with the same word source, and the runs go on in
step. From twin to twin this gives the word source (`sourceBehind_twins`),
the tree outside the differing files (`get?_treeBehind_twins`) and the
entries that fail (`failing_twins`).

One difference does show in the files themselves: a text that the pass
leaves as it is need not be written, so one file of two twins can fail to
be written while the other is fine.
-/
import Mathlib.Data.List.Forall2
import TaggedSource.Proofs.Independence
import TaggedSource.Proofs.Report

namespace TaggedSource

-- ============================================================ two trees

/-- Two trees that differ in nothing but the contents of the files at some
places. -/
structure FileTree.DifferIn (differ : Place → Prop) (tree tree' : FileTree) : Prop where
  home : tree'.home = tree.home
  outside : ∀ place, ¬ differ place → tree'.get? place = tree.get? place
  inside : ∀ place, differ place → ∃ content content' mode,
    tree.get? place = some (.file content mode) ∧ tree'.get? place = some (.file content' mode)

namespace FileTree

variable {differ : Place → Prop} {tree tree' : FileTree}

theorem DifferIn.symm (h : tree.DifferIn differ tree') : tree'.DifferIn differ tree := by
  refine ⟨h.home.symm, fun place hplace => (h.outside place hplace).symm, fun place hplace => ?_⟩
  obtain ⟨content, content', mode, hget, hget'⟩ := h.inside place hplace
  exact ⟨content', content, mode, hget', hget⟩

/-- Trees that differ in files differ in contents only. -/
theorem DifferIn.outline (h : tree.DifferIn differ tree') (place : Place) :
    (tree'.get? place).map Node.outline = (tree.get? place).map Node.outline := by
  by_cases hplace : differ place
  · obtain ⟨content, content', mode, hget, hget'⟩ := h.inside place hplace
    rw [hget, hget']
    rfl
  · rw [h.outside place hplace]

/-- Both trees have the root at the same place. -/
theorem DifferIn.locate_directory (h : tree.DifferIn differ tree') {path : Text} {top : Place}
    (hlocate : tree.locate .target path = .ok (.node top .directory)) :
    tree'.locate .target path = .ok (.node top .directory) := by
  have houtline := locate_outline h.home h.outline .target path
  rw [hlocate] at houtline
  cases hlocate' : tree'.locate .target path with
  | error fault =>
      rw [hlocate'] at houtline
      cases houtline
  | ok target =>
      rw [hlocate'] at houtline
      have htarget : target.outline = .node top .directory := Except.ok.inj houtline
      cases target with
      | vacant directory name => cases htarget
      | node place node =>
          obtain ⟨rfl, hnode⟩ := Target.node.inj htarget
          cases node with
          | directory => rfl
          | file content mode => cases hnode
          | link target => cases hnode

/-- What a look at a path says, up to a content. -/
theorem DifferIn.lookAt_outline (h : tree.DifferIn differ tree') (path : Text) :
    (tree'.lookAt .target path).map Node.outline = (tree.lookAt .target path).map Node.outline := by
  have houtline := locate_outline h.home h.outline .target path
  rw [lookAt, lookAt]
  cases hlocate : tree.locate .target path with
  | error fault =>
      cases hlocate' : tree'.locate .target path with
      | error fault' =>
          rw [hlocate, hlocate'] at houtline
          cases houtline
          rfl
      | ok target' =>
          rw [hlocate, hlocate'] at houtline
          cases houtline
  | ok target =>
      cases hlocate' : tree'.locate .target path with
      | error fault' =>
          rw [hlocate, hlocate'] at houtline
          cases houtline
      | ok target' =>
          rw [hlocate, hlocate'] at houtline
          have htarget : target'.outline = target.outline := Except.ok.inj houtline
          cases target with
          | vacant directory name =>
              cases target' with
              | vacant directory' name' => rfl
              | node place' node' => cases htarget
          | node place node =>
              cases target' with
              | vacant directory' name' => cases htarget
              | node place' node' => exact congrArg Except.ok (Target.node.inj htarget).2

/-- The same names are below a directory, in the same order. -/
theorem DifferIn.names_below (h : tree.DifferIn differ tree') (hsound : tree.Sound)
    (hsound' : tree'.Sound) (top : Place) (recursive : Bool) :
    (tree'.below top recursive).map (·.1) = (tree.below top recursive).map (·.1) := by
  have hmem (t : FileTree) (ht : t.Sound) (names : Place) :
      names ∈ (t.below top recursive).map (·.1) ↔
        names ≠ [] ∧ (recursive = true ∨ names.length = 1) ∧ (t.get? (top ++ names)).isSome := by
    rw [List.mem_map, Option.isSome_iff_exists]
    constructor
    · rintro ⟨⟨names, node⟩, hbelow, rfl⟩
      obtain ⟨hne, hdepth, hget⟩ := (mem_below ht).1 hbelow
      exact ⟨hne, hdepth, node, hget⟩
    · rintro ⟨hne, hdepth, node, hget⟩
      exact ⟨(names, node), (mem_below ht).2 ⟨hne, hdepth, hget⟩, rfl⟩
  have hsome (place : Place) : (tree'.get? place).isSome = (tree.get? place).isSome := by
    rw [← Option.isSome_map (f := Node.outline), h.outline, Option.isSome_map]
  have hsorted (t : FileTree) : ((t.below top recursive).map (·.1)).Pairwise
      fun names names' => Place.atMost names names' = true :=
    List.pairwise_map.2 (pairwise_below t top recursive)
  -- both lists are sorted, and have the same members
  refine List.Perm.eq_of_pairwise ?_ (hsorted tree') (hsorted tree) ?_
  · intro names names' _ _ hle hge
    exact lexical_antisymm Text.atMost_antisymm hle hge
  · rw [List.perm_ext_iff_of_nodup (nodup_below hsound' top recursive)
      (nodup_below hsound top recursive)]
    intro names
    rw [hmem tree' hsound', hmem tree hsound, hsome]

end FileTree

/-- Lists with the same keys are related if members with the same key are. -/
theorem forall₂_of_map_eq {α β : Type} {key : α → β} {R : α → α → Prop} {as bs : List α}
    (hkeys : bs.map key = as.map key)
    (h : ∀ a ∈ as, ∀ b ∈ bs, key b = key a → R a b) : List.Forall₂ R as bs := by
  induction as generalizing bs with
  | nil =>
      obtain rfl : bs = [] := List.map_eq_nil_iff.1 hkeys
      exact .nil
  | cons a as ih =>
      cases bs with
      | nil => cases hkeys
      | cons b bs =>
          obtain ⟨hkey, hkeys⟩ := List.cons.inj hkeys
          exact .cons (h a (.head _) b (.head _) hkey)
            (ih hkeys fun a ha b hb => h a (.tail _ ha) b (.tail _ hb))

namespace Batch

variable (batch : Batch) (differ : Place → Prop) (top : Place)

-- ================================================================ twins

/-- Entries of two trees that a batch gets to by the same names: the same,
or two files, each with a text if the batch selects them. -/
def Twins (a b : Place × Node) : Prop :=
  a.1 = b.1 ∧ (a.2 = b.2 ∨ differ (top ++ a.1) ∧ ∃ content content' mode,
    a.2 = .file content mode ∧ b.2 = .file content' mode ∧
      (batch.selects a.1 = true →
        ∃ old old', Utf8.decode content = .ok old ∧ Utf8.decode content' = .ok old'))

variable {batch differ top}

theorem Twins.symm {a b : Place × Node} (h : batch.Twins differ top a b) :
    batch.Twins differ top b a := by
  obtain ⟨hnames, hsame | ⟨hdiffer, content, content', mode, ha, hb, htexts⟩⟩ := h
  · exact ⟨hnames.symm, .inl hsame.symm⟩
  · refine ⟨hnames.symm, .inr ⟨hnames ▸ hdiffer, content', content, mode, hb, ha, ?_⟩⟩
    intro hselects
    obtain ⟨old, old', hold, hold'⟩ := htexts (hnames ▸ hselects)
    exact ⟨old', old, hold', hold⟩

theorem Twins.blocks {a b : Place × Node} (h : batch.Twins differ top a b) (recursive : Bool) :
    batch.blocks recursive a = batch.blocks recursive b := by
  obtain ⟨hnames, hsame | ⟨-, content, content', mode, ha, hb, -⟩⟩ := h
  · rw [Batch.blocks, Batch.blocks, hnames, hsame]
  · rw [Batch.blocks, Batch.blocks, ha, hb, hnames]
    rfl

/-- Of twins that differ and are taken up, neither has a text that can be
read, or both have. -/
theorem textOf?_twins {names : Place} {content content' : Bytes} {mode : Nat}
    (htexts : batch.selects names = true →
      ∃ old old', Utf8.decode content = .ok old ∧ Utf8.decode content' = .ok old')
    (htakes : batch.takesUp names (.file content mode) = true) :
    (batch.textOf? names (.file content mode) = none ∧
        batch.textOf? names (.file content' mode) = none) ∨
      ∃ old old', batch.textOf? names (.file content mode) = some old ∧
        batch.textOf? names (.file content' mode) = some old' := by
  rw [takesUp, Bool.and_eq_true] at htakes
  obtain ⟨old, old', hold, hold'⟩ := htexts htakes.1
  simp only [textOf?, hold, hold']
  cases batch.reaches names with
  | false => exact .inl ⟨rfl, rfl⟩
  | true => exact .inr ⟨old, old', rfl, rfl⟩

/-- Twins draw the same words. -/
theorem Twins.sourceAfter {a b : Place × Node} (h : batch.Twins differ top a b)
    (source : WordSource) :
    batch.sourceAfter source b.1 b.2 = batch.sourceAfter source a.1 a.2 := by
  obtain ⟨names, node⟩ := a
  obtain ⟨names', node'⟩ := b
  obtain ⟨hnames, hsame | ⟨-, content, content', mode, ha, hb, htexts⟩⟩ := h
  · obtain rfl : names = names' := hnames
    obtain rfl : node = node' := hsame
    rfl
  · obtain rfl : names = names' := hnames
    obtain rfl : node = _ := ha
    obtain rfl : node' = _ := hb
    have htakes' : batch.takesUp names (.file content' mode)
        = batch.takesUp names (.file content mode) := rfl
    simp only [Batch.sourceAfter, htakes']
    split
    · next htakes =>
      rcases textOf?_twins htexts htakes with ⟨hnone, hnone'⟩ | ⟨old, old', hold, hold'⟩
      · rw [hnone, hnone']
      · rw [hold, hold']
        exact (batch.pass.run_alike batch.profile old' old source).state
    · rfl

/-- If one of two twins fails, so does the other, unless they differ and the
one could not be written. -/
theorem Twins.isFailed {a b : Place × Node} (h : batch.Twins differ top a b) {dryRun : Bool}
    {source : WordSource} (hfailed : (batch.fateOf dryRun source a.1 a.2).isFailed = true) :
    (batch.fateOf dryRun source b.1 b.2).isFailed = true ∨
      differ (top ++ a.1) ∧ batch.fateOf dryRun source a.1 a.2 = .unwritten := by
  obtain ⟨names, node⟩ := a
  obtain ⟨names', node'⟩ := b
  obtain ⟨hnames, hsame | ⟨hdiffer, content, content', mode, ha, hb, htexts⟩⟩ := h
  · obtain rfl : names = names' := hnames
    obtain rfl : node = node' := hsame
    exact .inl hfailed
  · obtain rfl : names = names' := hnames
    obtain rfl : node = _ := ha
    obtain rfl : node' = _ := hb
    obtain ⟨htakes, ⟨-, herror⟩ | ⟨hunwritten, -⟩⟩ := fateOf_of_isFailed hfailed
    · have htakes' : batch.takesUp names (.file content' mode) = true := htakes
      left
      rcases textOf?_twins htexts htakes with ⟨-, hnone'⟩ | ⟨old, old', hold, hold'⟩
      · simp [fateOf, htakes', hnone', Fate.isFailed]
      · -- the pass fails on one text, so it fails on the other
        obtain ⟨cause, hcause⟩ := herror old hold
        have hverdict := (batch.pass.run_alike batch.profile old old' source).verdict
        rw [hcause] at hverdict
        cases hresult : ((batch.pass.run batch.profile old').run source).result with
        | error cause' => simp [fateOf, htakes', hold', hresult, Fate.isFailed]
        | ok new =>
            rw [hresult] at hverdict
            cases hverdict
    · exact .inr ⟨hdiffer, hunwritten⟩

-- ================================================== from twin to twin

section
variable {entries entries' : List (Place × Node)}
  (h : List.Forall₂ (batch.Twins differ top) entries entries')
include h

private theorem sourceBehind_twins (source : WordSource) :
    batch.sourceBehind source entries' = batch.sourceBehind source entries := by
  induction h generalizing source with
  | nil => rfl
  | cons htwins _ ih =>
      simp only [sourceBehind, List.foldl_cons] at ih ⊢
      rw [htwins.sourceAfter source]
      exact ih _

/-- Outside the differing files the trees stay the same. -/
theorem get?_treeBehind_twins (hnames : ∀ entry ∈ entries, entry.1 ≠ []) (dryRun : Bool)
    {place : Place} (hplace : ¬ differ place) {tree tree' : FileTree}
    (hget : tree'.get? place = tree.get? place) (source : WordSource) :
    (batch.treeBehind dryRun top source entries' tree').get? place
      = (batch.treeBehind dryRun top source entries tree).get? place := by
  induction h generalizing source tree tree' with
  | nil => exact hget
  | @cons a b as bs htwins _ ih =>
      obtain ⟨names, node⟩ := a
      obtain ⟨names', node'⟩ := b
      have hsource := htwins.sourceAfter source
      have hne : names ≠ [] := hnames (names, node) (.head _)
      have hat : top ++ names ≠ [] := by simp [hne]
      rw [treeBehind, treeBehind, hsource]
      refine ih (fun entry hmem => hnames entry (.tail _ hmem)) ?_ _
      obtain ⟨hsame, hnode | ⟨hdiffer, -⟩⟩ := htwins
      · obtain rfl : names = names' := hsame
        obtain rfl : node = node' := hnode
        exact Fate.get?_fulfil_congr _ dryRun hat hget
      · obtain rfl : names = names' := hsame
        have hother : place ≠ top ++ names := fun heq => hplace (heq ▸ hdiffer)
        rw [Fate.get?_fulfil_of_ne _ dryRun hat hother, Fate.get?_fulfil_of_ne _ dryRun hat hother,
          hget]

/-- What fails among some entries fails among their twins, or is one of the
differing files and could not be written. -/
theorem failing_twins (dryRun : Bool) (source : WordSource) :
    ∀ names ∈ batch.failing dryRun source entries,
      names ∈ batch.failing dryRun source entries' ∨
      ∃ before node after, entries = before ++ (names, node) :: after ∧ differ (top ++ names) ∧
        batch.fateOf dryRun (batch.sourceBehind source before) names node = .unwritten := by
  induction h generalizing source with
  | nil =>
      intro names hmem
      cases hmem
  | @cons a b as bs htwins _ ih =>
      obtain ⟨names, node⟩ := a
      obtain ⟨names', node'⟩ := b
      intro found hmem
      have hsource := htwins.sourceAfter source
      rw [failing, List.mem_append] at hmem
      rw [failing, List.mem_append, hsource]
      rcases hmem with hfirst | hlater
      · split at hfirst
        · next hfailed =>
          obtain rfl := List.mem_singleton.1 hfirst
          rcases htwins.isFailed hfailed with hfailed' | ⟨hdiffer, hfate⟩
          · left
            left
            rw [if_pos hfailed']
            exact List.mem_singleton.2 htwins.1
          · exact .inr ⟨[], node, as, rfl, hdiffer, hfate⟩
        · cases hfirst
      · rcases ih (batch.sourceAfter source names node) found hlater with hlater' |
          ⟨before, last, after, rfl, hdiffer, hfate⟩
        · exact .inl (.inr hlater')
        · exact .inr ⟨(names, node) :: before, last, after, rfl, hdiffer, hfate⟩

theorem forall₂_takeWhile_twins (recursive : Bool) :
    List.Forall₂ (batch.Twins differ top)
      (entries.takeWhile fun entry => !batch.blocks recursive entry)
      (entries'.takeWhile fun entry => !batch.blocks recursive entry) := by
  induction h with
  | nil => exact .nil
  | cons htwins _ ih =>
      rw [List.takeWhile_cons, List.takeWhile_cons, ← htwins.blocks recursive]
      split
      · exact .cons htwins ih
      · exact .nil

private theorem forall₂_upTo_twins (recursive : Bool) :
    List.Forall₂ (batch.Twins differ top) (upTo (batch.blocks recursive) entries)
      (upTo (batch.blocks recursive) entries') := by
  induction h with
  | nil => exact .nil
  | cons htwins _ ih =>
      rw [upTo, upTo, ← htwins.blocks recursive]
      split
      · exact .cons htwins .nil
      · exact .cons htwins ih

/-- The runs come to an end, or fail in the same place. -/
theorem verdict_twins (recursive : Bool) (tally tally' : Tally) :
    (batch.verdict (batch.blocks recursive) entries' tally').map (fun _ => ())
      = (batch.verdict (batch.blocks recursive) entries tally).map fun _ => () := by
  induction h with
  | nil => rfl
  | @cons a b as bs htwins _ ih =>
      simp only [verdict, List.find?_cons, ← htwins.blocks recursive] at ih ⊢
      cases batch.blocks recursive a with
      | true => simp only [htwins.1]
      | false => exact ih

end

-- ============================================================= the runs

variable (batch) in
/-- The batch finds something new to write to a path, and writing fails. -/
def FailsToWrite (path : Text) (w : Workspace) : Prop :=
  ∃ new cause, ((batch.process path).run w).result = .ok (some (.write new)) ∧
    (w.tree.overwrite path new).result = .error cause

/-- What cannot be written is what the batch fails to write. -/
theorem Grounded.failsToWrite {tree : FileTree} (hground : batch.Grounded top tree)
    {names : Place} {node : Node} (hnames : names ≠ [])
    (hget : tree.get? (top ++ names) = some node) {dryRun : Bool} {source : WordSource}
    (hfate : batch.fateOf dryRun source names node = .unwritten) :
    dryRun = false ∧ batch.FailsToWrite (batch.pathTo names) ⟨tree, source⟩ := by
  have hfailed : (batch.fateOf dryRun source names node).isFailed = true := by
    rw [hfate]
    rfl
  obtain ⟨htakes, ⟨hunread, -⟩ | ⟨-, hdry, hwrite, old, new, htext, hresult, hchanged⟩⟩ :=
    fateOf_of_isFailed hfailed
  · rw [hfate] at hunread
    cases hunread
  · obtain ⟨content, mode, rfl, hreaches, -⟩ := textOf?_eq_some.1 htext
    have hoverwrite := hground.overwrite_pathTo hnames hget hreaches source new
    rw [hwrite, if_neg Bool.false_ne_true] at hoverwrite
    obtain ⟨cause, hcause⟩ := hoverwrite
    refine ⟨hdry, new, cause, ?_, congrArg (·.result) hcause⟩
    rw [hground.process_of_takesUp hnames hget source htakes,
      hground.revise_of_some hnames hget source htext, hresult]
    simp [Except.map, Except.mapError, hchanged]

/-- An entry is found as it was, behind those before it. -/
theorem Grounded.behind {tree : FileTree} (hground : batch.Grounded top tree)
    {before after : List (Place × Node)} {names : Place} {node : Node}
    (hentries : ∀ entry ∈ before ++ (names, node) :: after,
      entry.1 ≠ [] ∧ tree.get? (top ++ entry.1) = some entry.2)
    (hdistinct : (before ++ (names, node) :: after).Pairwise fun a b => a.1 ≠ b.1) (dryRun : Bool)
    (source : WordSource) :
    batch.Grounded top (batch.treeBehind dryRun top source before tree) ∧
      (batch.treeBehind dryRun top source before tree).get? (top ++ names) = some node := by
  induction before generalizing tree source with
  | nil => exact ⟨hground, (hentries (names, node) (.head _)).2⟩
  | cons entry before ih =>
      obtain ⟨names', node'⟩ := entry
      obtain ⟨hground', hentries'⟩ := hground.behind_first hentries hdistinct dryRun source
      exact ih hground' hentries' hdistinct.of_cons _

/-- What a run visits is found as it was, when the run gets there. -/
theorem Grounded.behind_visited {tree : FileTree} (hground : batch.Grounded top tree)
    {recursive : Bool} {before after : List (Place × Node)} {names : Place} {node : Node}
    (hvisited : batch.visited tree top recursive = before ++ (names, node) :: after)
    (source : WordSource) :
    names ≠ [] ∧ batch.Grounded top (batch.treeBehind false top source before tree) ∧
      (batch.treeBehind false top source before tree).get? (top ++ names) = some node := by
  have hsublist : (batch.visited tree top recursive).Sublist (tree.below top recursive) :=
    upTo_sublist _ _
  have hdistinct := (List.pairwise_map.1
    (FileTree.nodup_below hground.sound top recursive)).sublist hsublist
  rw [hvisited] at hsublist hdistinct
  have hentries (entry : Place × Node) (hmem : entry ∈ before ++ (names, node) :: after) :=
    get?_of_mem_below hground.sound (hsublist.subset hmem)
  exact ⟨(hentries (names, node) (by simp)).1, hground.behind hentries hdistinct false source⟩

section
variable (batch differ) (options : BatchOptions)

/-- Each of the differing files that the batch selects holds a text. -/
def HoldsTexts (tree : FileTree) : Prop :=
  ∀ top names content mode, tree.locate .target batch.root = .ok (.node top .directory) →
    (names, .file content mode) ∈ tree.below top options.recursive →
    batch.selects names = true → differ (top ++ names) → ∃ old, Utf8.decode content = .ok old

/-- The path is that of a differing file that a run fails to write, when it
gets there. -/
def Unwritten (tree : FileTree) (source : WordSource) (path : Text) : Prop :=
  options.dryRun = false ∧ ∃ top before names node after,
    tree.locate .target batch.root = .ok (.node top .directory) ∧
    batch.visited tree top options.recursive = before ++ (names, node) :: after ∧
    differ (top ++ names) ∧ path = batch.pathTo names ∧
    batch.FailsToWrite path
      ⟨batch.treeBehind false top source before tree, batch.sourceBehind source before⟩

end

section
variable {options : BatchOptions} {tree tree' : FileTree}
  (hground : batch.Grounded top tree) (hground' : batch.Grounded top tree')
  (hlocate : tree.locate .target batch.root = .ok (.node top .directory))
  (hlocate' : tree'.locate .target batch.root = .ok (.node top .directory))
  (hdiffer : tree.DifferIn differ tree')
  (htexts : batch.HoldsTexts differ options tree)
  (htexts' : batch.HoldsTexts differ options tree')
include hground hground' hlocate hlocate' hdiffer htexts htexts'

/-- The entries below the root are twins, one by one. -/
theorem below_twins : List.Forall₂ (batch.Twins differ top) (tree.below top options.recursive)
    (tree'.below top options.recursive) := by
  have hnames := hdiffer.names_below hground.sound hground'.sound top options.recursive
  refine forall₂_of_map_eq hnames ?_
  rintro ⟨names, node⟩ hmem ⟨names', node'⟩ hmem' hsame
  obtain rfl : names' = names := hsame
  obtain ⟨-, hget⟩ := get?_of_mem_below hground.sound hmem
  obtain ⟨-, hget'⟩ := get?_of_mem_below hground'.sound hmem'
  refine ⟨rfl, ?_⟩
  by_cases hplace : differ (top ++ names')
  · obtain ⟨content, content', mode, hfile, hfile'⟩ := hdiffer.inside _ hplace
    obtain rfl : node = .file content mode := Option.some.inj (hget.symm.trans hfile)
    obtain rfl : node' = .file content' mode := Option.some.inj (hget'.symm.trans hfile')
    refine .inr ⟨hplace, content, content', mode, rfl, rfl, fun hselects => ?_⟩
    obtain ⟨old, hold⟩ := htexts top names' content mode hlocate hmem hselects hplace
    obtain ⟨old', hold'⟩ := htexts' top names' content' mode hlocate' hmem' hselects hplace
    exact ⟨old, old', hold, hold'⟩
  · have hsame := hdiffer.outside _ hplace
    rw [hget, hget'] at hsame
    exact .inl (Option.some.inj hsame).symm

/-- What fails in one run fails in the other, or is a differing file that
the run fails to write. -/
theorem Grounded.failedPaths_twins (source : WordSource) :
    ∀ path ∈ failedPaths ((batch.run options).run ⟨tree, source⟩).log,
      path ∈ failedPaths ((batch.run options).run ⟨tree', source⟩).log ∨
        batch.Unwritten differ options tree source path := by
  have htwins := forall₂_upTo_twins (below_twins hground hground' hlocate hlocate' hdiffer htexts
    htexts') options.recursive
  intro path hpath
  rw [hground.failedPaths_run hlocate options.recursive options.dryRun, List.mem_map] at hpath
  rw [hground'.failedPaths_run hlocate' options.recursive options.dryRun]
  obtain ⟨names, hfailing, rfl⟩ := hpath
  rcases failing_twins htwins options.dryRun source names hfailing with hfailing' |
    ⟨before, node, after, hvisited, hplace, hfate⟩
  · exact .inl (List.mem_map_of_mem hfailing')
  · obtain ⟨hne, hthere, hget⟩ := hground.behind_visited hvisited source
    obtain ⟨hdry, hfails⟩ := hthere.failsToWrite hne hget hfate
    exact .inr ⟨hdry, top, before, names, node, after, hlocate, hvisited, hplace, rfl, hfails⟩

end

/-- Files of a batch are isolated from each other: on two trees that differ
in the contents of some files only, each a text if it is selected, runs of
the batch take the same words, end alike, fail on the same entries except
for differing files that cannot be written, and leave the same in every
other place. -/
theorem files_are_isolated {batch : Batch} {options : BatchOptions} {differ : Place → Prop}
    {tree tree' : FileTree} (hsound : tree.Sound) (hclear : tree.Clear) (hsound' : tree'.Sound)
    (hclear' : tree'.Clear) (hdiffer : tree.DifferIn differ tree')
    (htexts : batch.HoldsTexts differ options tree)
    (htexts' : batch.HoldsTexts differ options tree') (source : WordSource) :
    let o := (batch.run options).run ⟨tree, source⟩
    let o' := (batch.run options).run ⟨tree', source⟩
    o'.state.source = o.state.source ∧
    o'.result.map (fun _ => ()) = o.result.map (fun _ => ()) ∧
    (∀ path ∈ failedPaths o.log,
      path ∈ failedPaths o'.log ∨ batch.Unwritten differ options tree source path) ∧
    (∀ path ∈ failedPaths o'.log,
      path ∈ failedPaths o.log ∨ batch.Unwritten differ options tree' source path) ∧
    ∀ place, ¬ differ place → o'.state.tree.get? place = o.state.tree.get? place := by
  intro o o'
  by_cases hroot : ∃ top, tree.locate .target batch.root = .ok (.node top .directory)
  · obtain ⟨top, hlocate⟩ := hroot
    have hlocate' := hdiffer.locate_directory hlocate
    have hground := Grounded.of_locate hsound hclear hlocate
    have hground' := Grounded.of_locate hsound' hclear' hlocate'
    have htwins := below_twins hground hground' hlocate hlocate' hdiffer htexts htexts'
    have hmet := forall₂_takeWhile_twins htwins options.recursive
    obtain ⟨hresult, hstate, -⟩ :=
      hground.run_run hlocate options.recursive options.dryRun source
    obtain ⟨hresult', hstate', -⟩ :=
      hground'.run_run hlocate' options.recursive options.dryRun source
    refine ⟨?_, ?_,
      hground.failedPaths_twins hground' hlocate hlocate' hdiffer htexts htexts' source,
      hground'.failedPaths_twins hground hlocate' hlocate hdiffer.symm htexts' htexts source, ?_⟩
    · rw [hstate, hstate']
      exact sourceBehind_twins hmet source
    · rw [hresult, hresult']
      exact verdict_twins htwins options.recursive _ _
    · intro place hplace
      rw [hstate, hstate']
      exact get?_treeBehind_twins hmet (fun entry hmem => (get?_of_mem_met hsound hmem).1)
        options.dryRun hplace (hdiffer.outside place hplace) source
  · -- the runs do nothing, for the same reason
    have hnone : tree.lookAt .target batch.root ≠ .ok .directory := by
      intro hlook
      obtain ⟨top, hlocate⟩ := FileTree.locate_of_lookAt hlook
      exact hroot ⟨top, hlocate⟩
    have hnone' : tree'.lookAt .target batch.root ≠ .ok .directory := by
      intro hlook
      obtain ⟨top, hlocate'⟩ := FileTree.locate_of_lookAt hlook
      exact hroot ⟨top, hdiffer.symm.locate_directory hlocate'⟩
    obtain ⟨hresult, hstate⟩ :=
      run_of_not_directory hnone options.recursive options.dryRun source
    obtain ⟨hresult', hstate'⟩ :=
      run_of_not_directory hnone' options.recursive options.dryRun source
    have hquiet := failedPaths_run_of_not_directory hnone options.recursive options.dryRun source
    have hquiet' := failedPaths_run_of_not_directory hnone' options.recursive options.dryRun source
    refine ⟨?_, ?_, ?_, ?_, ?_⟩
    · rw [hstate, hstate']
    · have hverdict (x : Except Fault Node) :
          ((x.mapError (Failure.walk batch.root)).map fun _ => ({} : Tally)).map (fun _ => ())
            = ((x.map Node.outline).mapError (.walk batch.root)).map fun _ => () := by
        cases x <;> rfl
      rw [hresult, hresult', hverdict, hverdict, hdiffer.lookAt_outline]
    · intro path hpath
      rw [hquiet] at hpath
      cases hpath
    · intro path hpath
      rw [hquiet'] at hpath
      cases hpath
    · intro place hplace
      rw [hstate, hstate']
      exact hdiffer.outside place hplace

/-- A batch that replaces a word by a random one in the working directory. -/
def draftBatch : Batch where
  profile := { id := text "Draft", copyrightStrings := [⟨text "old", text "@Random(2)"⟩] }
  pass := .copyright
  root := text "."
  ignored := .none

/-- The place of a draft. -/
def draftPlace : Place := [text "w", text "a.js"]

/-- A tree with a draft and another file, both for the batch. -/
def draftTree (draft : Text) : FileTree where
  home := [text "w"]
  entries :=
    [([text "w"], .directory), (draftPlace, .file (Utf8.encode draft) 420),
      ([text "w", text "b.swift"], .file (Utf8.encode (text "old")) 420)]

private theorem differIn_draftTree (draft draft' : Text) :
    (draftTree draft).DifferIn (· = draftPlace) (draftTree draft') := by
  refine ⟨rfl, fun place hplace => ?_, ?_⟩
  · simp [FileTree.get?, draftTree, FileTree.findIn, Ne.symm hplace]
  · rintro place rfl
    exact ⟨Utf8.encode draft, Utf8.encode draft', 420, rfl, rfl⟩

private theorem holdsTexts_draftTree {draft : Text} (hsound : (draftTree draft).Sound)
    (hdecode : Utf8.decode (Utf8.encode draft) = .ok draft) (options : BatchOptions) :
    draftBatch.HoldsTexts (· = draftPlace) options (draftTree draft) := by
  intro top names content mode _ hmem _ hplace
  obtain ⟨-, hget⟩ := get?_of_mem_below hsound hmem
  have hdraft : (draftTree draft).get? draftPlace = some (.file (Utf8.encode draft) 420) := rfl
  rw [hplace, hdraft] at hget
  cases hget
  exact ⟨draft, hdecode⟩

/-- One draft has the word and the other has not; the file behind it gets
the same random word. -/
theorem files_are_isolated_draftTree :
    let tree := draftTree (text "old")
    let tree' := draftTree (text "new")
    let options : BatchOptions := ⟨true, false⟩
    tree.Sound ∧ tree.Clear ∧ tree'.Sound ∧ tree'.Clear ∧
      tree.DifferIn (· = draftPlace) tree' ∧
      draftBatch.HoldsTexts (· = draftPlace) options tree ∧
      draftBatch.HoldsTexts (· = draftPlace) options tree' ∧
      let o := (draftBatch.run options).run ⟨tree, WordSource.ofWords [] 0⟩
      let o' := (draftBatch.run options).run ⟨tree', WordSource.ofWords [] 0⟩
      o'.state.source = o.state.source ∧
        o'.state.tree.get? [text "w", text "b.swift"]
          = o.state.tree.get? [text "w", text "b.swift"] := by
  intro tree tree' options
  have hsound : tree.Sound := by decide
  have hclear : tree.Clear := by decide
  have hsound' : tree'.Sound := by decide
  have hclear' : tree'.Clear := by decide
  have hdiffer := differIn_draftTree (text "old") (text "new")
  have htexts := holdsTexts_draftTree hsound (by decide +kernel) options
  have htexts' := holdsTexts_draftTree hsound' (by decide +kernel) options
  obtain ⟨hsource, -, -, -, hothers⟩ := files_are_isolated hsound hclear hsound' hclear' hdiffer
    htexts htexts' (WordSource.ofWords [] 0)
  exact ⟨hsound, hclear, hsound', hclear', hdiffer, htexts, htexts', hsource,
    hothers _ (by decide)⟩

end Batch

end TaggedSource

/-
Ignore files only protect, and only by the set of their patterns.

Take two ignore files for one tree, such that the patterns of the first are
among those of the second. What a list covers depends on the set of its
patterns (`mem_globs_of_ofPatterns`), so the second covers more, and a batch
selects less under it (`selects_of_covers`). The rest is a chain of two
steps, over the run of the first batch on the second tree. From tree to
tree, only the ignore file differs, which no batch selects, so the runs are
those of isolated files (`get?_run_twins`). From batch to batch, on one
tree, the runs get to the same entries in the same order; if both select an
entry, it has the same fate, up to the words that it draws
(`get?_run_under_of_drawsNothing`), and if they select the same everywhere, they do the
same (`tree_run_under`).
-/
import TaggedSource.Proofs.Isolation
import TaggedSource.Proofs.Journey

namespace TaggedSource

-- =============================================================== patterns

namespace IgnoreList

/-- The globs of a list are those that its patterns spell. -/
theorem mem_globs_of_ofPatterns {patterns : List Text} {list : IgnoreList}
    (h : ofPatterns patterns = .ok list) {glob : Glob} :
    glob ∈ list.globs ↔ ∃ pattern ∈ patterns, Glob.parse pattern = .ok glob := by
  induction patterns generalizing list with
  | nil =>
      cases h
      simp [none]
  | cons pattern patterns ih =>
      unfold ofPatterns at h
      split at h
      · cases h
      · next first hfirst =>
        split at h
        · cases h
        · next rest hrest =>
          cases h
          rw [List.mem_cons, ih hrest, List.exists_mem_cons_iff, hfirst, Except.ok.injEq, eq_comm]

/-- A list with more patterns covers more. -/
private theorem covers_of_subset {content content' : Text} {list list' : IgnoreList}
    (h : ofContent content = .ok list) (h' : ofContent content' = .ok list')
    (hsub : ∀ pattern ∈ patterns content, pattern ∈ patterns content') {path : Text}
    (hcovers : list.covers path = true) : list'.covers path = true := by
  obtain ⟨glob, hglob, hmatch⟩ := List.any_eq_true.1 hcovers
  obtain ⟨pattern, hpattern, hparse⟩ := (mem_globs_of_ofPatterns h).1 hglob
  refine List.any_eq_true.2 ⟨glob, (mem_globs_of_ofPatterns h').2 ⟨pattern, ?_, hparse⟩, hmatch⟩
  rcases List.mem_append.1 hpattern with hpattern | hpattern
  · exact List.mem_append_left _ hpattern
  · exact List.mem_append_right _ (hsub pattern hpattern)

private theorem isName_fileName : Path.IsName fileName := by
  constructor <;> decide

end IgnoreList

namespace Batch

variable {batch : Batch} {top : Place} {tree : FileTree}

/-- The ignore file is read, unless its path is too long. -/
theorem Grounded.load_run (hground : batch.Grounded top tree) {bytes : Bytes} {mode : Nat}
    {content : Text}
    (hfile : tree.get? (top ++ [IgnoreList.fileName]) = some (.file bytes mode))
    (hdecode : Utf8.decode bytes = .ok content) :
    ((IgnoreList.load batch.root).run tree).result =
      if FileTree.maxPath < Text.byteSize (Path.join batch.root IgnoreList.fileName) then
        .error (.ignoreFile (.unreadable (Path.join batch.root IgnoreList.fileName) .nameTooLong))
      else (IgnoreList.ofContent content).mapError .ignoreFile := by
  have hname := IgnoreList.isName_fileName
  rw [IgnoreList.load, Action.run_bind, Action.run_get, Action.goOn_ok]
  by_cases hlong : FileTree.maxPath < Text.byteSize (Path.join batch.root IgnoreList.fileName)
  · have hread : tree.readText (Path.join batch.root IgnoreList.fileName)
        = .error .nameTooLong := by
      rw [FileTree.readText, FileTree.readBytes, FileTree.lookAt,
        FileTree.locate_of_long (Path.nul_not_mem_join hname hground.root_no_nul) hlong]
    rw [hread, if_pos hlong]
    rfl
  · have hread : tree.readText (Path.join batch.root IgnoreList.fileName) = .ok content := by
      rw [FileTree.readText, FileTree.readBytes, FileTree.lookAt,
        FileTree.locate_join (by simp [hfile]) hground.at_root hname hground.root_no_nul
          (Nat.not_lt.1 hlong), if_neg (by decide), FileTree.targetIn_of_some hfile]
      simp only [hdecode]
    simp only [hread, Action.run_ofExcept, if_neg hlong]

/-- A list that could be read is that of the file. -/
theorem Grounded.ofContent_of_load (hground : batch.Grounded top tree) {bytes : Bytes} {mode : Nat}
    {content : Text} {list : IgnoreList}
    (hfile : tree.get? (top ++ [IgnoreList.fileName]) = some (.file bytes mode))
    (hdecode : Utf8.decode bytes = .ok content)
    (hload : ((IgnoreList.load batch.root).run tree).result = .ok list) :
    IgnoreList.ofContent content = .ok list := by
  rw [hground.load_run hfile hdecode] at hload
  split at hload
  · cases hload
  · cases hcontent : IgnoreList.ofContent content with
    | error flaw =>
        rw [hcontent] at hload
        cases hload
    | ok found =>
        rw [hcontent] at hload
        cases hload
        rfl

-- ============================================================= selection

/-- The batch under another ignore list. -/
def under (batch : Batch) (ignored : IgnoreList) : Batch := { batch with ignored }

/-- A file below the root that the batch selects. -/
def SelectsFile (batch : Batch) (recursive : Bool) (top : Place) (tree : FileTree)
    (place : Place) : Prop :=
  ∃ names content mode, (names, .file content mode) ∈ tree.below top recursive ∧
    batch.selects names = true ∧ place = top ++ names

/-- The ignore file is of no kind that a pass changes. -/
theorem not_selects_fileName (batch : Batch) : batch.selects [IgnoreList.fileName] = false := by
  have hkind : FileKind.ofName? IgnoreList.fileName = none := by decide
  simp [selects, hkind]

section
variable {ignored ignored' : IgnoreList}

/-- Under a list that covers more, a batch selects less. -/
theorem selects_of_covers
    (hcovers : ∀ path, ignored.covers path = true → ignored'.covers path = true) {names : Place}
    (h : (batch.under ignored').selects names = true) :
    (batch.under ignored).selects names = true := by
  have hnot {path : Text} (hpath : ignored'.covers path = false) : ignored.covers path = false := by
    rw [Bool.eq_false_iff] at hpath ⊢
    exact fun hcovered => hpath (hcovers path hcovered)
  simp only [selects, Bool.and_eq_true, Bool.not_eq_true'] at h ⊢
  exact ⟨⟨hnot h.1.1, hnot h.1.2⟩, h.2⟩

/-- An entry that is selected under both lists, or under neither, is taken
up alike. -/
theorem takesUp_under {names : Place}
    (h : (batch.under ignored').selects names = (batch.under ignored).selects names) (node : Node) :
    (batch.under ignored').takesUp names node = (batch.under ignored).takesUp names node := by
  rw [takesUp, takesUp, h]
  rfl

/-- The fate of an entry depends on the list by whether it is selected. -/
private theorem fateOf_under {names : Place}
    (h : (batch.under ignored').selects names = (batch.under ignored).selects names)
    (dryRun : Bool) (source : WordSource) (node : Node) :
    (batch.under ignored').fateOf dryRun source names node
      = (batch.under ignored).fateOf dryRun source names node := by
  rw [fateOf, fateOf, takesUp_under h]
  rfl

private theorem sourceAfter_under {names : Place}
    (h : (batch.under ignored').selects names = (batch.under ignored).selects names)
    (source : WordSource) (node : Node) :
    (batch.under ignored').sourceAfter source names node
      = (batch.under ignored).sourceAfter source names node := by
  rw [sourceAfter, sourceAfter, takesUp_under h]
  rfl

/-- Lists that select the same entries lead to the same tree. -/
private theorem treeBehind_under
    (h : ∀ names, (batch.under ignored').selects names = (batch.under ignored).selects names)
    (dryRun : Bool) (source : WordSource) (entries : List (Place × Node)) (tree : FileTree) :
    (batch.under ignored').treeBehind dryRun top source entries tree
      = (batch.under ignored).treeBehind dryRun top source entries tree := by
  induction entries generalizing source tree with
  | nil => rfl
  | cons entry entries ih =>
      obtain ⟨names, node⟩ := entry
      rw [treeBehind, treeBehind, sourceAfter_under (h names), fateOf_under (h names), ih]

end

-- ============================================================= the words

/-- No rule of the batch's pass asks for more than the underscore. -/
def DrawsNothing (batch : Batch) : Prop :=
  ∀ rule ∈ batch.pass.rules batch.profile, ∀ length,
    Replacement.parse rule.replacement = .ok (.random length) → length < 2

/-- A batch that draws nothing gives an entry the same fate, whatever the
words. -/
theorem DrawsNothing.fateOf_eq (h : batch.DrawsNothing)
    (dryRun : Bool) (source source' : WordSource) (names : Place) (node : Node) :
    batch.fateOf dryRun source' names node = batch.fateOf dryRun source names node := by
  have hsame (t : Text) := (Pass.run_of_short h t source).2 source'
  unfold fateOf
  simp only [hsame]

-- ============================================================== the runs

section
variable (hground : batch.Grounded top tree)
  (hlocate : tree.locate .target batch.root = .ok (.node top .directory)) (options : BatchOptions)
include hground hlocate

/-- What a run selects no file at stays as it was. -/
theorem Grounded.get?_run_of_not_selects {place : Place}
    (h : ¬ batch.SelectsFile options.recursive top tree place) (source : WordSource) :
    ((batch.run options).run ⟨tree, source⟩).state.tree.get? place = tree.get? place := by
  obtain ⟨recursive, dryRun⟩ := options
  cases dryRun with
  | true => rw [batch.tree_run_dry recursive ⟨tree, source⟩]
  | false =>
      rw [(hground.run_run hlocate recursive false source).2.1]
      refine get?_treeBehind_of_no_text hground.sound (fun names node hmem hat hselects => ?_) source
      cases htext : batch.textOf? names node with
      | none => rfl
      | some old =>
          obtain ⟨content, mode, rfl, -⟩ := textOf?_eq_some.1 htext
          have hbelow := (List.takeWhile_sublist _).subset hmem
          exact absurd ⟨names, content, mode, hbelow, hselects, hat⟩ h

/-- Runs on trees that differ in the ignore file differ in nothing else. -/
theorem Grounded.get?_run_twins {tree' : FileTree} (hground' : batch.Grounded top tree')
    (hdiffer : tree.DifferIn (· = top ++ [IgnoreList.fileName]) tree') {place : Place}
    (hplace : place ≠ top ++ [IgnoreList.fileName]) (source : WordSource) :
    ((batch.run options).run ⟨tree', source⟩).state.tree.get? place
      = ((batch.run options).run ⟨tree, source⟩).state.tree.get? place := by
  have hlocate' := hdiffer.locate_directory hlocate
  have htexts (t : FileTree) (ht : t.locate .target batch.root = .ok (.node top .directory)) :
      batch.HoldsTexts (· = top ++ [IgnoreList.fileName]) options t := by
    intro top' names content mode htop _ hselects hat
    rw [ht] at htop
    cases htop
    obtain rfl := List.append_cancel_left hat
    exact absurd hselects (by simp [not_selects_fileName])
  have hmet := forall₂_takeWhile_twins (below_twins hground hground' hlocate hlocate' hdiffer
    (htexts tree hlocate) (htexts tree' hlocate')) options.recursive
  rw [(hground.run_run hlocate options.recursive options.dryRun source).2.1,
    (hground'.run_run hlocate' options.recursive options.dryRun source).2.1]
  exact get?_treeBehind_twins hmet (fun entry hmem => (get?_of_mem_met hground.sound hmem).1)
    options.dryRun hplace (hdiffer.outside place hplace) source

end

private theorem Grounded.under (hground : batch.Grounded top tree) (list : IgnoreList) :
    (batch.under list).Grounded top tree :=
  ⟨hground.sound, hground.clear, hground.root_ne_nil, hground.root_no_nul, hground.at_root⟩

section
variable {ignored ignored' : IgnoreList} (hground : batch.Grounded top tree)
  (hlocate : tree.locate .target batch.root = .ok (.node top .directory)) (options : BatchOptions)
include hground hlocate

/-- A file that is selected under two lists is rewritten alike, if no words
are drawn. -/
theorem Grounded.get?_run_under_of_drawsNothing (hdraws : batch.DrawsNothing) {names : Place}
    {node : Node} (hget : tree.get? (top ++ names) = some node)
    (hselects : (batch.under ignored).selects names = true)
    (hselects' : (batch.under ignored').selects names = true) (source source' : WordSource) :
    (((batch.under ignored').run options).run ⟨tree, source'⟩).state.tree.get? (top ++ names)
      = (((batch.under ignored).run options).run ⟨tree, source⟩).state.tree.get? (top ++ names) := by
  obtain ⟨recursive, dryRun⟩ := options
  cases dryRun with
  | true => rw [tree_run_dry, tree_run_dry]
  | false =>
      have hrun (list : IgnoreList) (s : WordSource) :
          (((batch.under list).run ⟨recursive, false⟩).run ⟨tree, s⟩).state.tree
            = (batch.under list).treeBehind false top s
                ((batch.under list).met tree top recursive) tree :=
        congrArg (·.tree) ((hground.under list).run_run hlocate recursive false s).2.1
      rw [hrun, hrun]
      by_cases hmet : (names, node) ∈ batch.met tree top recursive
      · have hmeets (list : IgnoreList) (s : WordSource) :
            ((batch.under list).treeBehind false top s ((batch.under list).met tree top recursive)
              tree).get? (top ++ names)
              = some (((batch.under list).fateOf false source names node).nodeAfter node) := by
          have hmem : (names, node) ∈ (batch.under list).met tree top recursive := hmet
          obtain ⟨s', hbehind⟩ := exists_get?_treeBehind hground.sound hmem s
          have hnone : (batch.under list).DrawsNothing := hdraws
          rw [hbehind, hnone.fateOf_eq false source s']
        rw [hmeets, hmeets, fateOf_under (hselects'.trans hselects.symm)]
      · -- the runs end before they get there
        have hnever (list : IgnoreList) (s : WordSource) :
            ((batch.under list).treeBehind false top s ((batch.under list).met tree top recursive)
              tree).get? (top ++ names) = tree.get? (top ++ names) := by
          refine get?_treeBehind_of_no_text hground.sound (fun names' node' hmem hat _ => ?_) s
          obtain rfl : names = names' := List.append_cancel_left hat
          have hnode := (get?_of_mem_met hground.sound hmem).2
          rw [hget] at hnode
          cases hnode
          exact absurd hmem hmet
        rw [hnever, hnever]

/-- Under lists that select the same, runs do the same. -/
theorem Grounded.tree_run_under
    (hselects : ∀ names, (batch.under ignored').selects names = (batch.under ignored).selects names)
    (source : WordSource) :
    (((batch.under ignored').run options).run ⟨tree, source⟩).state.tree
      = (((batch.under ignored).run options).run ⟨tree, source⟩).state.tree := by
  obtain ⟨recursive, dryRun⟩ := options
  rw [((hground.under ignored).run_run hlocate recursive dryRun source).2.1,
    ((hground.under ignored').run_run hlocate recursive dryRun source).2.1]
  exact treeBehind_under hselects dryRun source _ tree

end

end Batch

-- ========================================================= two ignore files

/-- The tree with an ignore file in a directory. -/
def FileTree.withIgnoreFile (tree : FileTree) (top : Place) (bytes : Bytes) (mode : Nat) : FileTree :=
  tree.put (top ++ [IgnoreList.fileName]) (.file bytes mode)

namespace FileTree

variable {tree : FileTree} {top : Place} {old : Bytes} {mode : Nat}

/-- Another ignore file shows at its own place only. -/
private theorem get?_withIgnoreFile (bytes : Bytes) (place : Place) :
    (tree.withIgnoreFile top bytes mode).get? place =
      if place = top ++ [IgnoreList.fileName] then some (.file bytes mode) else tree.get? place :=
  get?_put tree (by simp) _ place

private theorem differIn_withIgnoreFile (bytes bytes' : Bytes) :
    (tree.withIgnoreFile top bytes mode).DifferIn (· = top ++ [IgnoreList.fileName])
      (tree.withIgnoreFile top bytes' mode) := by
  refine ⟨rfl, fun place hplace => ?_, fun place hplace => ⟨bytes, bytes', mode, ?_, ?_⟩⟩
  · rw [get?_withIgnoreFile, get?_withIgnoreFile, if_neg hplace, if_neg hplace]
  · rw [get?_withIgnoreFile, if_pos hplace]
  · rw [get?_withIgnoreFile, if_pos hplace]

end FileTree

namespace Batch

variable {batch : Batch} {tree : FileTree} {top : Place} {old : Bytes} {mode : Nat}

/-- The batch finds its way in the tree with any ignore file. -/
theorem Grounded.withIgnoreFile (hground : batch.Grounded top tree)
    (hfile : tree.get? (top ++ [IgnoreList.fileName]) = some (.file old mode)) (bytes : Bytes) :
    batch.Grounded top (tree.withIgnoreFile top bytes mode) :=
  hground.of_outline (FileTree.outline_put (by simp) hfile)

/-- No batch rewrites its own ignore file. -/
private theorem SelectsFile.ne_ignoreFile {recursive : Bool} {place : Place}
    (h : batch.SelectsFile recursive top tree place) : place ≠ top ++ [IgnoreList.fileName] := by
  obtain ⟨names, content, mode, -, hnames, rfl⟩ := h
  intro hat
  obtain rfl := List.append_cancel_left hat
  rw [not_selects_fileName] at hnames
  cases hnames

/-- Where less is selected under one list, fewer files are, whatever the
ignore files hold. -/
theorem SelectsFile.of_selects {ignored ignored' : IgnoreList} {recursive : Bool}
    {bytes bytes' : Bytes} {place : Place}
    (hsound : (tree.withIgnoreFile top bytes mode).Sound)
    (hsound' : (tree.withIgnoreFile top bytes' mode).Sound)
    (hselects : ∀ names, (batch.under ignored').selects names = true →
      (batch.under ignored).selects names = true)
    (h : (batch.under ignored').SelectsFile recursive top (tree.withIgnoreFile top bytes' mode)
      place) :
    (batch.under ignored).SelectsFile recursive top (tree.withIgnoreFile top bytes mode) place := by
  have hother := h.ne_ignoreFile
  obtain ⟨names, content, mode', hmem, hnames, rfl⟩ := h
  obtain ⟨hne, hdepth, hget⟩ := (FileTree.mem_below hsound').1 hmem
  refine ⟨names, content, mode', (FileTree.mem_below hsound).2 ⟨hne, hdepth, ?_⟩,
    hselects names hnames, rfl⟩
  rw [FileTree.get?_withIgnoreFile, if_neg hother] at hget ⊢
  exact hget

/-- If the patterns of one ignore file are among those of another, a batch
selects no file under the second that it does not select under the first;
it rewrites those that it selects under both alike, if it draws nothing; and
it leaves everything else alone. If they have the same patterns, the runs
leave the same tree but for the ignore file, given the same words or none. -/
theorem ignore_files_only_protect {tree : FileTree} (hsound : tree.Sound) (hclear : tree.Clear)
    (batch : Batch) (options : BatchOptions) {top : Place}
    (hlocate : tree.locate .target batch.root = .ok (.node top .directory))
    {old bytes bytes' : Bytes} {mode : Nat}
    (hfile : tree.get? (top ++ [IgnoreList.fileName]) = some (.file old mode))
    {content content' : Text} (hdecode : Utf8.decode bytes = .ok content)
    (hdecode' : Utf8.decode bytes' = .ok content')
    {ignored ignored' : IgnoreList}
    (hload : ((IgnoreList.load batch.root).run (tree.withIgnoreFile top bytes mode)).result
      = .ok ignored)
    (hload' : ((IgnoreList.load batch.root).run (tree.withIgnoreFile top bytes' mode)).result
      = .ok ignored')
    (hsub : ∀ pattern ∈ IgnoreList.patterns content, pattern ∈ IgnoreList.patterns content')
    (source source' : WordSource) :
    let before := tree.withIgnoreFile top bytes mode
    let before' := tree.withIgnoreFile top bytes' mode
    let after := (((batch.under ignored).run options).run ⟨before, source⟩).state.tree
    let after' := (((batch.under ignored').run options).run ⟨before', source'⟩).state.tree
    (∀ place, (batch.under ignored').SelectsFile options.recursive top before' place →
      (batch.under ignored).SelectsFile options.recursive top before place) ∧
    (batch.DrawsNothing → ∀ place,
      (batch.under ignored).SelectsFile options.recursive top before place →
      (batch.under ignored').SelectsFile options.recursive top before' place →
        after'.get? place = after.get? place) ∧
    (∀ place, ¬ (batch.under ignored').SelectsFile options.recursive top before' place →
      after'.get? place = before'.get? place) ∧
    ((∀ pattern ∈ IgnoreList.patterns content', pattern ∈ IgnoreList.patterns content) →
      batch.DrawsNothing ∨ source' = source →
        ∀ place, place ≠ top ++ [IgnoreList.fileName] → after'.get? place = after.get? place) := by
  intro before before' after after'
  have hground := Grounded.of_locate hsound hclear hlocate
  have hfirst : batch.Grounded top before := hground.withIgnoreFile hfile bytes
  have hsecond : batch.Grounded top before' := hground.withIgnoreFile hfile bytes'
  have hthere (t : FileTree) (ht : batch.Grounded top t) :
      t.locate .target batch.root = .ok (.node top .directory) :=
    FileTree.locate_directory ht.at_root ht.root_no_nul ht.root_ne_nil
      (FileTree.accepts_of_locate hlocate).2.2
  have hdiffer : before.DifferIn (· = top ++ [IgnoreList.fileName]) before' :=
    FileTree.differIn_withIgnoreFile bytes bytes'
  have hlist := hfirst.ofContent_of_load (FileTree.get?_withIgnoreFile bytes _ |>.trans (if_pos rfl))
    hdecode hload
  have hlist' := hsecond.ofContent_of_load
    (FileTree.get?_withIgnoreFile bytes' _ |>.trans (if_pos rfl)) hdecode' hload'
  have hselects (names : Place) (h : (batch.under ignored').selects names = true) :
      (batch.under ignored).selects names = true :=
    selects_of_covers (fun _ => IgnoreList.covers_of_subset hlist hlist' hsub) h
  have hprotects (place : Place)
      (h : (batch.under ignored').SelectsFile options.recursive top before' place) :
      (batch.under ignored).SelectsFile options.recursive top before place :=
    h.of_selects hfirst.sound hsecond.sound hselects
  -- over the first batch on the second tree
  have hstep {place : Place} (hplace : place ≠ top ++ [IgnoreList.fileName]) :
      (((batch.under ignored).run options).run ⟨before', source⟩).state.tree.get? place
        = after.get? place :=
    (hfirst.under ignored).get?_run_twins (hthere before hfirst) options (hsecond.under ignored)
      hdiffer hplace source
  have halike (hdraws : batch.DrawsNothing) (place : Place)
      (h : (batch.under ignored').SelectsFile options.recursive top before' place) :
      after'.get? place = after.get? place := by
    rw [← hstep h.ne_ignoreFile]
    obtain ⟨names, content, mode', hmem, hnames, rfl⟩ := h
    obtain ⟨-, hget⟩ := get?_of_mem_below hsecond.sound hmem
    exact hsecond.get?_run_under_of_drawsNothing (hthere before' hsecond) options hdraws hget
      (hselects names hnames) hnames source source'
  have hleft (place : Place)
      (h : ¬ (batch.under ignored').SelectsFile options.recursive top before' place) :
      after'.get? place = before'.get? place :=
    (hsecond.under ignored').get?_run_of_not_selects (hthere before' hsecond) options h source'
  refine ⟨hprotects, fun hdraws place _ h => halike hdraws place h, hleft, ?_⟩
  intro hsub' hwords place hplace
  have hselects' (names : Place) :
      (batch.under ignored').selects names = (batch.under ignored).selects names :=
    Bool.eq_iff_iff.2 ⟨hselects names,
      selects_of_covers fun _ => IgnoreList.covers_of_subset hlist' hlist hsub'⟩
  rcases hwords with hdraws | rfl
  · by_cases h : (batch.under ignored').SelectsFile options.recursive top before' place
    · exact halike hdraws place h
    · have hnot : ¬ (batch.under ignored).SelectsFile options.recursive top before place :=
        fun hselected => h (hselected.of_selects hsecond.sound hfirst.sound
          fun names hnames => (hselects' names).trans hnames)
      have hstays : after.get? place = before.get? place :=
        (hfirst.under ignored).get?_run_of_not_selects (hthere before hfirst) options hnot source
      rw [hleft place h, hstays, hdiffer.outside place hplace]
  · rw [← hstep hplace]
    show (((batch.under ignored').run options).run ⟨before', source'⟩).state.tree.get? place = _
    rw [hsecond.tree_run_under (hthere before' hsecond) options hselects' source']

/-- A batch that replaces a word in the working directory. -/
def guardedBatch : Batch where
  profile := { id := text "Word", copyrightStrings := [⟨text "old", text "new"⟩] }
  pass := .copyright
  root := text "."
  ignored := .none

/-- Three files with the word, and an ignore file. -/
def guardedTree : FileTree where
  home := [text "w"]
  entries :=
    [([text "w"], .directory), ([text "w", IgnoreList.fileName], .file [] 420),
      ([text "w", text "a.js"], .file (Utf8.encode (text "old")) 420),
      ([text "w", text "b.js"], .file (Utf8.encode (text "old")) 420),
      ([text "w", text "c.js"], .file (Utf8.encode (text "old")) 420)]

/-- One pattern. -/
def onePattern : Text := text "a.js"

/-- Two patterns, with blanks, a comment and a repetition. -/
def twoPatterns : Text := text "# keep\r\n\r\n b.js\t\r\na.js\r\na.js\r\n"

/-- The same two patterns. -/
def samePatterns : Text := text "a.js\nb.js"

private theorem locate_guardedTree :
    guardedTree.locate .target guardedBatch.root = .ok (.node [text "w"] .directory) :=
  FileTree.locate_directory (by decide) (by decide) (by decide) (by decide)

private theorem load_guardedTree {content : Text}
    (hdecode : Utf8.decode (Utf8.encode content) = .ok content)
    (hvalid : (IgnoreList.ofContent content).toOption.isSome = true) :
    ∃ ignored, IgnoreList.ofContent content = .ok ignored ∧
      ((IgnoreList.load guardedBatch.root).run
        (guardedTree.withIgnoreFile [text "w"] (Utf8.encode content) 420)).result = .ok ignored := by
  have hground := Grounded.of_locate (by decide) (by decide) locate_guardedTree
  have hthere := hground.withIgnoreFile (by rfl) (Utf8.encode content)
  cases hlist : IgnoreList.ofContent content with
  | error flaw =>
      rw [hlist] at hvalid
      cases hvalid
  | ok ignored =>
      refine ⟨ignored, rfl, ?_⟩
      rw [hthere.load_run (FileTree.get?_withIgnoreFile _ _ |>.trans (if_pos rfl)) hdecode,
        if_neg (by decide), hlist]
      rfl

private theorem drawsNothing_guardedBatch : guardedBatch.DrawsNothing := by
  intro rule hrule length hparse
  obtain rfl : rule = ⟨text "old", text "new"⟩ := List.mem_singleton.1 hrule
  have hliteral : Replacement.parse (text "new") = .ok (.literal (text "new")) := by decide
  rw [hliteral] at hparse
  cases hparse

/-- A second pattern protects a file more; another way to write the two
patterns protects the same. -/
theorem ignore_files_only_protect_guardedTree :
    ∃ one two same : IgnoreList,
      let before (content : Text) : FileTree :=
        guardedTree.withIgnoreFile [text "w"] (Utf8.encode content) 420
      let after (list : IgnoreList) (content : Text) : FileTree :=
        (((guardedBatch.under list).run ⟨true, false⟩).run
          ⟨before content, WordSource.ofWords [] 0⟩).state.tree
      ((IgnoreList.load guardedBatch.root).run (before onePattern)).result = .ok one ∧
      ((IgnoreList.load guardedBatch.root).run (before twoPatterns)).result = .ok two ∧
      ((IgnoreList.load guardedBatch.root).run (before samePatterns)).result = .ok same ∧
      (guardedBatch.under two).SelectsFile true [text "w"] (before twoPatterns)
        [text "w", text "c.js"] ∧
      (guardedBatch.under one).SelectsFile true [text "w"] (before onePattern)
        [text "w", text "c.js"] ∧
      (after two twoPatterns).get? [text "w", text "c.js"]
        = (after one onePattern).get? [text "w", text "c.js"] ∧
      (after two twoPatterns).get? [text "w", text "b.js"]
        = some (.file (Utf8.encode (text "old")) 420) ∧
      ∀ place, place ≠ [text "w", IgnoreList.fileName] →
        (after same samePatterns).get? place = (after two twoPatterns).get? place := by
  have hone : Utf8.decode (Utf8.encode onePattern) = .ok onePattern := by decide +kernel
  have htwo : Utf8.decode (Utf8.encode twoPatterns) = .ok twoPatterns := by decide +kernel
  have hsame : Utf8.decode (Utf8.encode samePatterns) = .ok samePatterns := by decide +kernel
  obtain ⟨one, -, hloadOne⟩ := load_guardedTree hone (by decide +kernel)
  obtain ⟨two, hlistTwo, hloadTwo⟩ := load_guardedTree htwo (by decide +kernel)
  obtain ⟨same, -, hloadSame⟩ := load_guardedTree hsame (by decide +kernel)
  have hcovers : two.covers (text "b.js") = true ∧ two.covers (text "c.js") = false ∧
      two.covers (text "./c.js") = false := by
    have hlist : ((IgnoreList.ofContent twoPatterns).toOption.any fun list =>
        list.covers (text "b.js") && !list.covers (text "c.js") && !list.covers (text "./c.js"))
          = true := by decide +kernel
    rw [hlistTwo] at hlist
    simpa [Except.toOption, and_assoc] using hlist
  obtain ⟨hprotects, halike, hleft, -⟩ := ignore_files_only_protect (by decide) (by decide)
    guardedBatch ⟨true, false⟩ locate_guardedTree (by rfl) hone htwo hloadOne hloadTwo
    (by decide +kernel) (WordSource.ofWords [] 0) (WordSource.ofWords [] 0)
  obtain ⟨-, -, -, hequal⟩ := ignore_files_only_protect (by decide) (by decide)
    guardedBatch ⟨true, false⟩ locate_guardedTree (by rfl) htwo hsame hloadTwo hloadSame
    (by decide +kernel) (WordSource.ofWords [] 0) (WordSource.ofWords [] 0)
  have hsound : (guardedTree.withIgnoreFile [text "w"] (Utf8.encode twoPatterns) 420).Sound := by
    decide
  have hselected : (guardedBatch.under two).SelectsFile true [text "w"]
      (guardedTree.withIgnoreFile [text "w"] (Utf8.encode twoPatterns) 420)
      [text "w", text "c.js"] := by
    refine ⟨[text "c.js"], Utf8.encode (text "old"), 420,
      (FileTree.mem_below hsound).2 ⟨by simp, .inl rfl, by rfl⟩, ?_, rfl⟩
    have hkind : ([text "c.js"].getLast?.bind FileKind.ofName?).any (·.supports .copyright) = true := by
      decide
    have hpath : FileTree.pathOf [text "c.js"] = text "c.js" := by decide
    have hwhole : guardedBatch.pathTo [text "c.js"] = text "./c.js" := by decide
    rw [selects, hpath, show (guardedBatch.under two).pathTo _ = _ from hwhole]
    simp only [under, hcovers.2.1, hcovers.2.2]
    exact hkind
  have hguarded : ¬ (guardedBatch.under two).SelectsFile true [text "w"]
      (guardedTree.withIgnoreFile [text "w"] (Utf8.encode twoPatterns) 420)
      [text "w", text "b.js"] := by
    rintro ⟨names, content, mode, -, hnames, hat⟩
    obtain rfl : [text "b.js"] = names := (List.cons.inj hat).2
    have hpath : FileTree.pathOf [text "b.js"] = text "b.js" := by decide
    rw [selects, hpath] at hnames
    simp [under, hcovers.1] at hnames
  exact ⟨one, two, same, hloadOne, hloadTwo, hloadSame, hselected, hprotects _ hselected,
    halike drawsNothing_guardedBatch _ (hprotects _ hselected) hselected, hleft _ hguarded,
    hequal (by decide +kernel) (.inr rfl)⟩

end Batch

end TaggedSource

/-
A dry run predicts the run.

A dry run does what a run does, up to the point of writing a file. So it
leaves the tree alone, whatever the tree holds: no stop of its journey
changes it (`tree_run_dry`).

# The two runs side by side

In a tree without links and temporary files no entry shows what was written
before the run got to it, so both runs find the same entries with the same
word source. An entry comes to the same fate in both, or it is one that
cannot be written (`fateOf_dry`): then the dry run takes it for changed, and
the run counts it as failed. Entry by entry this adds up to all that sets the
counts apart (`tally_dry`), and to all that the run reports and the dry run
does not (`failing_dry`).

# What is not written

The entries that cannot be written are known from the calls alone
(`mem_unwritten_iff`): when the run gets there, processing gives a new text,
and the call that should put it in place fails.
-/
import TaggedSource.Proofs.Isolation
import TaggedSource.Proofs.Journey

namespace TaggedSource

namespace Batch

variable {batch : Batch}

-- ================================================== one entry, two fates

/-- An entry comes to the same fate in a dry run, unless it cannot be
written. -/
theorem fateOf_dry (source : WordSource) (names : Place) (node : Node) :
    (batch.fateOf false source names node ≠ .unwritten ∧
        batch.fateOf true source names node = batch.fateOf false source names node) ∨
      (batch.fateOf false source names node = .unwritten ∧
        ∃ new, batch.fateOf true source names node = .rewritten new) := by
  unfold fateOf
  cases batch.takesUp names node with
  | false => exact .inl ⟨Fate.noConfusion, rfl⟩
  | true =>
      simp only [if_true]
      cases batch.textOf? names node with
      | none => exact .inl ⟨Fate.noConfusion, rfl⟩
      | some old =>
          simp only
          cases ((batch.pass.run batch.profile old).run source).result with
          | error cause => exact .inl ⟨Fate.noConfusion, rfl⟩
          | ok new =>
              simp only [Bool.true_or, Bool.false_or, if_true]
              by_cases hsame : new = old
              · simp [hsame]
              · rw [if_neg hsame, if_neg hsame]
                cases batch.canWrite names with
                | true => exact .inl ⟨Fate.noConfusion, rfl⟩
                | false => exact .inr ⟨rfl, new, rfl⟩

-- ===================================================== entry by entry

variable (batch) in
/-- Those of some entries, visited one after the other, that cannot be
written. -/
def unwritten : WordSource → List (Place × Node) → List Place
  | _, [] => []
  | source, (names, node) :: entries =>
    (if batch.fateOf false source names node = .unwritten then [names] else []) ++
      unwritten (batch.sourceAfter source names node) entries

private theorem unwritten_sublist (batch : Batch) (source : WordSource)
    (entries : List (Place × Node)) :
    (batch.unwritten source entries).Sublist (entries.map (·.1)) := by
  induction entries generalizing source with
  | nil => exact .slnil
  | cons entry entries ih =>
      obtain ⟨names, node⟩ := entry
      rw [unwritten, List.map_cons]
      split
      · exact (ih _).cons_cons names
      · exact (ih _).cons names

/-- What cannot be written is all that sets the counts apart. -/
theorem tally_dry (batch : Batch) (source : WordSource) (entries : List (Place × Node)) :
    let dry := Fate.tally (batch.fates true source entries)
    let real := Fate.tally (batch.fates false source entries)
    let n := (batch.unwritten source entries).length
    dry.processed = real.processed + n ∧ dry.changed = real.changed + n ∧
      real.failed = dry.failed + n := by
  induction entries generalizing source with
  | nil => exact ⟨rfl, rfl, rfl⟩
  | cons entry entries ih =>
      obtain ⟨names, node⟩ := entry
      obtain ⟨hprocessed, hchanged, hfailed⟩ := ih (batch.sourceAfter source names node)
      simp only [Fate.tally] at hprocessed hchanged hfailed
      simp only [Fate.tally, fates, unwritten, List.countP_cons, List.length_append]
      rcases fateOf_dry source names node with ⟨hwritten, hsame⟩ | ⟨hunwritten, new, hnew⟩
      · rw [if_neg hwritten, hsame, List.length_nil]
        refine ⟨?_, ?_, ?_⟩ <;> omega
      · rw [if_pos hunwritten, hunwritten, hnew, List.length_singleton]
        simp only [Fate.isProcessed, Fate.isChanged, Fate.isFailed, Bool.false_eq_true, if_true,
          if_false]
        refine ⟨?_, ?_, ?_⟩ <;> omega

/-- What fails in a dry run fails in the run, in the same order, and what
cannot be written fails besides. -/
theorem failing_dry (batch : Batch) (source : WordSource) (entries : List (Place × Node)) :
    (batch.failing true source entries).Sublist (batch.failing false source entries) ∧
      (batch.failing false source entries).Perm
        (batch.failing true source entries ++ batch.unwritten source entries) := by
  induction entries generalizing source with
  | nil => exact ⟨.slnil, .nil⟩
  | cons entry entries ih =>
      obtain ⟨names, node⟩ := entry
      obtain ⟨hsublist, hperm⟩ := ih (batch.sourceAfter source names node)
      simp only [failing, unwritten]
      rcases fateOf_dry source names node with ⟨hwritten, hsame⟩ | ⟨hunwritten, new, hnew⟩
      · rw [if_neg hwritten, hsame, List.nil_append, List.append_assoc]
        exact ⟨hsublist.append_left _, hperm.append_left _⟩
      · rw [if_pos hunwritten, hunwritten, hnew]
        refine ⟨hsublist.cons names, ?_⟩
        exact (hperm.cons names).trans List.perm_middle.symm

-- ================================================= what is not written

/-- An entry cannot be written if that is its fate when the run gets to it. -/
private theorem mem_unwritten {source : WordSource} {entries : List (Place × Node)}
    {names : Place} :
    names ∈ batch.unwritten source entries ↔
      ∃ before node after, entries = before ++ (names, node) :: after ∧
        batch.fateOf false (batch.sourceBehind source before) names node = .unwritten := by
  induction entries generalizing source with
  | nil => simp [unwritten]
  | cons entry entries ih =>
      obtain ⟨first, node⟩ := entry
      rw [unwritten, List.mem_append, ih]
      constructor
      · rintro (hfirst | ⟨before, last, after, rfl, hfate⟩)
        · split at hfirst
          · next hfate =>
            obtain rfl := List.mem_singleton.1 hfirst
            exact ⟨[], node, entries, rfl, hfate⟩
          · cases hfirst
        · exact ⟨(first, node) :: before, last, after, rfl, hfate⟩
      · rintro ⟨before, last, after, heq, hfate⟩
        cases before with
        | nil =>
            obtain ⟨hentry, rfl⟩ := List.cons.inj heq
            obtain ⟨rfl, rfl⟩ := Prod.mk.inj hentry
            have hfirst : batch.fateOf false source first node = .unwritten := hfate
            left
            rw [if_pos hfirst]
            exact List.mem_singleton_self _
        | cons entry before =>
            obtain ⟨rfl, rfl⟩ := List.cons.inj heq
            exact .inr ⟨before, last, after, rfl, hfate⟩

/-- What the batch fails to write is what cannot be written. -/
theorem Grounded.fateOf_of_failsToWrite {top names : Place} {tree : FileTree} {node : Node}
    (hground : batch.Grounded top tree) (hnames : names ≠ [])
    (hget : tree.get? (top ++ names) = some node) {source : WordSource}
    (hfails : batch.FailsToWrite (batch.pathTo names) ⟨tree, source⟩) :
    batch.fateOf false source names node = .unwritten := by
  obtain ⟨new, cause, hprocess, hoverwrite⟩ := hfails
  cases htakes : batch.takesUp names node with
  | false =>
      obtain ⟨events, hskip⟩ := hground.process_of_skipped hnames hget source htakes
      rw [hskip] at hprocess
      cases hprocess
  | true =>
      rw [hground.process_of_takesUp hnames hget source htakes] at hprocess
      cases htext : batch.textOf? names node with
      | none =>
          obtain ⟨reason, hrevise⟩ := hground.revise_of_none hnames hget source htext
          rw [hrevise] at hprocess
          cases hprocess
      | some old =>
          rw [hground.revise_of_some hnames hget source htext] at hprocess
          cases hresult : ((batch.pass.run batch.profile old).run source).result with
          | error reason =>
              rw [hresult] at hprocess
              cases hprocess
          | ok given =>
              rw [hresult] at hprocess
              simp only [Except.map, Except.mapError, Except.ok.injEq, Option.some.injEq] at hprocess
              split at hprocess
              · cases hprocess
              · next hchanged =>
                obtain rfl : given = new := Operation.write.inj hprocess
                obtain ⟨content, mode, rfl, hreaches, -⟩ := textOf?_eq_some.1 htext
                have hcall := hground.overwrite_pathTo hnames hget hreaches source given
                have hwrite : batch.canWrite names = false := by
                  rw [← Bool.not_eq_true]
                  intro hwrite
                  rw [if_pos hwrite] at hcall
                  have hdone : (tree.overwrite (batch.pathTo names) given).result = .ok () :=
                    congrArg (·.result) hcall
                  cases hoverwrite.symm.trans hdone
                simp [fateOf, htakes, htext, hresult, hchanged, hwrite]

section
variable {top : Place} {tree : FileTree} (hground : batch.Grounded top tree)
  (hlocate : tree.locate .target batch.root = .ok (.node top .directory))
include hground

/-- Entries with the same path are the same. -/
theorem Grounded.pathTo_inj {names names' : Place} {node node' : Node}
    (hget : tree.get? (top ++ names) = some node) (hget' : tree.get? (top ++ names') = some node')
    (h : batch.pathTo names = batch.pathTo names') : names = names' := by
  have hsteps := congrArg Path.stepsOf h
  rw [pathTo, pathTo, Path.stepsOf_pathFrom fun name hname => (hground.isName hget hname).1,
    Path.stepsOf_pathFrom fun name hname => (hground.isName hget' hname).1] at hsteps
  exact List.append_cancel_left hsteps

/-- No path is listed twice. -/
private theorem Grounded.nodup_unwritten (recursive : Bool) (source : WordSource) :
    ((batch.unwritten source (batch.visited tree top recursive)).map batch.pathTo).Nodup := by
  have hsublist := upTo_sublist (batch.blocks recursive) (tree.below top recursive)
  have hunwritten := unwritten_sublist batch source (batch.visited tree top recursive)
  have hget (names : Place)
      (hmem : names ∈ batch.unwritten source (batch.visited tree top recursive)) :
      ∃ node, tree.get? (top ++ names) = some node := by
    obtain ⟨entry, hentry, rfl⟩ := List.mem_map.1 (hunwritten.subset hmem)
    exact ⟨entry.2, (get?_of_mem_below hground.sound (hsublist.subset hentry)).2⟩
  refine List.Nodup.map_on ?_ ?_
  · intro names hmem names' hmem' heq
    obtain ⟨node, hnode⟩ := hget names hmem
    obtain ⟨node', hnode'⟩ := hget names' hmem'
    exact hground.pathTo_inj hnode hnode' heq
  · exact (FileTree.nodup_below hground.sound top recursive).sublist
      (hunwritten.trans (hsublist.map _))

include hlocate in
private theorem Grounded.mem_unwritten_iff (recursive : Bool) (source : WordSource) (path : Text) :
    path ∈ (batch.unwritten source (batch.visited tree top recursive)).map batch.pathTo ↔
      batch.Unwritten (fun _ => True) ⟨recursive, false⟩ tree source path := by
  rw [List.mem_map]
  constructor
  · rintro ⟨names, hmem, rfl⟩
    obtain ⟨before, node, after, hvisited, hfate⟩ := mem_unwritten.1 hmem
    obtain ⟨hne, hbehind, hget⟩ := hground.behind_visited hvisited source
    exact ⟨rfl, top, before, names, node, after, hlocate, hvisited, trivial, rfl,
      (hbehind.failsToWrite hne hget hfate).2⟩
  · rintro ⟨-, top', before, names, node, after, hlocate', hvisited, -, rfl, hfails⟩
    obtain rfl : top = top' := by
      rw [hlocate] at hlocate'
      exact (FileTree.Target.node.inj (Except.ok.inj hlocate')).1
    obtain ⟨hne, hbehind, hget⟩ := hground.behind_visited hvisited source
    exact ⟨names, mem_unwritten.2 ⟨before, node, after, hvisited,
      hbehind.fateOf_of_failsToWrite hne hget hfails⟩, rfl⟩

end

-- ============================================================= the runs

/-- A run that gets past everything visits all that is below its root. -/
theorem visited_of_find?_eq_none {tree : FileTree} {top : Place} {recursive : Bool}
    (h : (tree.below top recursive).find? (batch.blocks recursive) = none) :
    batch.met tree top recursive = tree.below top recursive ∧
      batch.visited tree top recursive = tree.below top recursive := by
  rw [List.find?_eq_none] at h
  rw [met, visited]
  generalize tree.below top recursive = entries at h ⊢
  induction entries with
  | nil => exact ⟨rfl, rfl⟩
  | cons entry entries ih =>
      have hpast : batch.blocks recursive entry = false := by simpa using h entry (.head _)
      obtain ⟨hmet, hvisited⟩ := ih fun other hmem => h other (.tail _ hmem)
      rw [List.takeWhile_cons, upTo, hpast, hmet, hvisited]
      exact ⟨rfl, rfl⟩

/-- How the results of a dry run and of the run differ if the run fails to
write `n` files. -/
def Predicts (n : Nat) (dry real : Except Failure Tally) : Prop :=
  (∃ cause, dry = .error cause ∧ real = .error cause) ∨
    ∃ predicted tally, dry = .ok predicted ∧ real = .ok tally ∧
      predicted.processed + predicted.failed = tally.processed + tally.failed ∧
      predicted.changed = tally.changed + n ∧ predicted.processed = tally.processed + n ∧
      tally.failed = predicted.failed + n

/-- From a directory, the two runs differ by the entries that cannot be
written. -/
private theorem Grounded.predicts {top : Place} {tree : FileTree}
    (hground : batch.Grounded top tree)
    (hlocate : tree.locate .target batch.root = .ok (.node top .directory)) (recursive : Bool)
    (source : WordSource) :
    Predicts (batch.unwritten source (batch.visited tree top recursive)).length
      ((batch.run ⟨recursive, true⟩).run ⟨tree, source⟩).result
      ((batch.run ⟨recursive, false⟩).run ⟨tree, source⟩).result := by
  obtain ⟨hdry, -⟩ := hground.run_run hlocate recursive true source
  obtain ⟨hreal, -⟩ := hground.run_run hlocate recursive false source
  rw [hdry, hreal, verdict, verdict]
  cases hfind : (tree.below top recursive).find? (batch.blocks recursive) with
  | some entry => exact .inl ⟨_, rfl, rfl⟩
  | none =>
      obtain ⟨hmet, hvisited⟩ := visited_of_find?_eq_none hfind
      rw [hmet, hvisited]
      obtain ⟨hprocessed, hchanged, hfailed⟩ :=
        tally_dry batch source (tree.below top recursive)
      refine .inr ⟨_, _, rfl, rfl, ?_, hchanged, hprocessed, hfailed⟩
      omega

/-- A dry run touches nothing, whatever the tree holds. On a tree without
links and temporary files it takes the words that the run takes, what it
fails on the run fails on, and it has the result of the run up to the files
that the run fails to write: those count as failed instead of changed. -/
theorem dry_run_predicts (batch : Batch) (recursive : Bool) :
    (∀ w, ((batch.run ⟨recursive, true⟩).run w).state.tree = w.tree) ∧
    ∀ tree : FileTree, tree.Sound → tree.Clear → ∀ source : WordSource,
      let dry := (batch.run ⟨recursive, true⟩).run ⟨tree, source⟩
      let real := (batch.run ⟨recursive, false⟩).run ⟨tree, source⟩
      real.state.source = dry.state.source ∧
      (failedPaths dry.log).Sublist (failedPaths real.log) ∧
      ∃ unwritten : List Text, unwritten.Nodup ∧
        (∀ path, path ∈ unwritten ↔
          batch.Unwritten (fun _ => True) ⟨recursive, false⟩ tree source path) ∧
        (failedPaths real.log).Perm (failedPaths dry.log ++ unwritten) ∧
        Predicts unwritten.length dry.result real.result := by
  refine ⟨tree_run_dry batch recursive, fun tree hsound hclear source => ?_⟩
  intro dry real
  by_cases hroot : ∃ top, tree.locate .target batch.root = .ok (.node top .directory)
  · obtain ⟨top, hlocate⟩ := hroot
    have hground := Grounded.of_locate hsound hclear hlocate
    obtain ⟨-, hdry, -⟩ := hground.run_run hlocate recursive true source
    obtain ⟨-, hreal, -⟩ := hground.run_run hlocate recursive false source
    have hsource : real.state.source = dry.state.source := by
      rw [hdry, hreal]
    obtain ⟨hsublist, hperm⟩ :=
      failing_dry batch source (batch.visited tree top recursive)
    refine ⟨hsource, ?_, (batch.unwritten source (batch.visited tree top recursive)).map batch.pathTo,
      hground.nodup_unwritten recursive source, hground.mem_unwritten_iff hlocate recursive source,
      ?_, ?_⟩
    · rw [hground.failedPaths_run hlocate, hground.failedPaths_run hlocate]
      exact hsublist.map _
    · rw [hground.failedPaths_run hlocate, hground.failedPaths_run hlocate, ← List.map_append]
      exact hperm.map _
    · rw [List.length_map]
      exact hground.predicts hlocate recursive source
  · -- neither run does anything
    have hnone : tree.lookAt .target batch.root ≠ .ok .directory := by
      intro hlook
      obtain ⟨top, hlocate⟩ := FileTree.locate_of_lookAt hlook
      exact hroot ⟨top, hlocate⟩
    obtain ⟨hresult, hstate⟩ := run_of_not_directory hnone recursive true source
    obtain ⟨hresult', hstate'⟩ := run_of_not_directory hnone recursive false source
    have hquiet := failedPaths_run_of_not_directory hnone recursive true source
    have hquiet' := failedPaths_run_of_not_directory hnone recursive false source
    refine ⟨?_, ?_, [], .nil, ?_, ?_, ?_⟩
    · rw [hstate, hstate']
    · rw [hquiet, hquiet']
    · intro path
      constructor
      · intro hmem
        cases hmem
      · rintro ⟨-, top, before, names, node, after, hlocate, -⟩
        exact absurd ⟨top, hlocate⟩ hroot
    · rw [hquiet, hquiet']
      exact .nil
    · rw [hresult, hresult']
      cases tree.lookAt .target batch.root with
      | error fault => exact .inl ⟨_, rfl, rfl⟩
      | ok node => exact .inr ⟨{}, {}, rfl, rfl, rfl, rfl, rfl, rfl⟩

-- ========================================================= a long name

/-- A name that leaves no room for that of a temporary file: each of these
letters has four bytes. -/
def longName : Name := List.replicate 60 '𝔸' ++ text ".js"

/-- A batch that puts one word for another. -/
def wordBatch : Batch where
  profile := { id := text "Word", copyrightStrings := [⟨text "old", text "new"⟩] }
  pass := .copyright
  root := text "."
  ignored := .none

/-- Two files with the word, and one that is no text. -/
def longNameTree : FileTree where
  home := [text "w"]
  entries :=
    [([text "w"], .directory),
      ([text "w", longName], .file (Utf8.encode (text "old")) 420),
      ([text "w", text "b.js"], .file [0xFF] 420),
      ([text "w", text "c.js"], .file (Utf8.encode (text "old")) 420)]

/-- What the batch gets to. -/
def longNameMet : List (Place × Node) :=
  [([text "b.js"], .file [0xFF] 420), ([text "c.js"], .file (Utf8.encode (text "old")) 420),
    ([longName], .file (Utf8.encode (text "old")) 420)]

private theorem result_longNameTree (hsound : longNameTree.Sound) (hclear : longNameTree.Clear)
    (dryRun : Bool) :
    ((wordBatch.run ⟨false, dryRun⟩).run ⟨longNameTree, WordSource.ofWords [] 0⟩).result
      = .ok (Fate.tally (wordBatch.fates dryRun (WordSource.ofWords [] 0) longNameMet)) := by
  have hlocate : longNameTree.locate .target wordBatch.root = .ok (.node [text "w"] .directory) := by
    cbv
  have hbelow : longNameTree.below [text "w"] false = longNameMet := by cbv
  have hground : wordBatch.Grounded [text "w"] longNameTree := .of_locate hsound hclear hlocate
  obtain ⟨hresult, -, -⟩ := hground.run_run hlocate false dryRun (WordSource.ofWords [] 0)
  rw [hresult, met, hbelow]
  rfl

/-- The dry run takes both files with the word for changed; the run fails to
write the one with the long name. -/
theorem dry_run_predicts_longNameTree :
    let w : Workspace := ⟨longNameTree, WordSource.ofWords [] 0⟩
    let dry := (wordBatch.run ⟨false, true⟩).run w
    let real := (wordBatch.run ⟨false, false⟩).run w
    longNameTree.Sound ∧ longNameTree.Clear ∧
      dry.result = .ok ⟨2, 2, 1⟩ ∧ real.result = .ok ⟨1, 1, 2⟩ ∧
      dry.state.tree = longNameTree ∧ real.state.source = dry.state.source ∧
      ∃ path, ∀ other,
        wordBatch.Unwritten (fun _ => True) ⟨false, false⟩ longNameTree (WordSource.ofWords [] 0)
          other ↔ other = path := by
  have hsound : longNameTree.Sound := by decide +kernel
  have hclear : longNameTree.Clear := by decide +kernel
  have hdry : ((wordBatch.run ⟨false, true⟩).run
      ⟨longNameTree, WordSource.ofWords [] 0⟩).result = .ok ⟨2, 2, 1⟩ := by
    rw [result_longNameTree hsound hclear]
    decide +kernel
  have hreal : ((wordBatch.run ⟨false, false⟩).run
      ⟨longNameTree, WordSource.ofWords [] 0⟩).result = .ok ⟨1, 1, 2⟩ := by
    rw [result_longNameTree hsound hclear]
    decide +kernel
  obtain ⟨htree, hpredicts⟩ := dry_run_predicts wordBatch false
  obtain ⟨hsource, -, unwritten, -, hmem, -, hresult⟩ :=
    hpredicts longNameTree hsound hclear (WordSource.ofWords [] 0)
  refine ⟨hsound, hclear, hdry, hreal, htree _, hsource, ?_⟩
  have hlength : unwritten.length = 1 := by
    rw [hdry, hreal] at hresult
    obtain ⟨cause, hcause, -⟩ | ⟨predicted, tally, hpredicted, htally, -, hchanged, -⟩ := hresult
    · cases hcause
    · cases hpredicted
      cases htally
      exact (Nat.add_left_cancel hchanged).symm
  obtain ⟨path, rfl⟩ := List.length_eq_one_iff.1 hlength
  exact ⟨path, fun other => (hmem other).symm.trans List.mem_singleton⟩

end Batch

end TaggedSource

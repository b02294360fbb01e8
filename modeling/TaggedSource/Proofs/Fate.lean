/-
What becomes of one entry that a batch gets to.

An entry is known by the names that lead to it from the root of the batch,
and by what stands there. These decide whether the batch takes the entry up
(`takesUp`) and which text it reads (`textOf?`); the text and the word
source decide the rest (`fateOf`). None of this looks at the tree.

The main statement (`visit_run`) is that a visit, with all the calls on the
tree that it makes, comes to the fate of its entry: the fate is counted,
the words that the pass drew are taken, and the tree is as it was unless
the entry was rewritten, and then it has the new content in the old place.
-/
import TaggedSource.Proofs.Handling
import TaggedSource.Proofs.Overwrite
import TaggedSource.Proofs.Totality
import TaggedSource.Proofs.Utf8

namespace TaggedSource

/-- What becomes of an entry. -/
inductive Fate where
  /-- It is none of the batch's business. -/
  | skipped
  /-- No text can be read from it, or the pass fails on the text. -/
  | unread
  /-- It has the text that the pass would give it. -/
  | kept
  /-- It gets a new text. -/
  | rewritten (new : Text)
  /-- It should get a new text, which cannot be written. -/
  | unwritten
  deriving DecidableEq, Repr

namespace Fate

/-- How a fate is counted. -/
def count (tally : Tally) : Fate → Tally
  | .skipped => tally
  | .kept => tally.count false
  | .rewritten _ => tally.count true
  | .unread | .unwritten => tally.countFailure

/-- What stands in the place of a node when its fate is fulfilled. -/
def nodeAfter (node : Node) : Fate → Node
  | .rewritten new =>
    match node with
    | .file _ mode => .file (Utf8.encode new) mode
    | node => node
  | _ => node

/-- The tree in which the fate of what stands at a place is fulfilled. -/
def fulfil (dryRun : Bool) (place : Place) (node : Node) (tree : FileTree) : Fate → FileTree
  | .rewritten new => if dryRun then tree else tree.put place ((rewritten new).nodeAfter node)
  | _ => tree

/-- How a fate is reported to the walk. -/
def Reports (path : Text) (result : Except Failure (Option Bool)) : Fate → Prop
  | .skipped => result = .ok none
  | .kept => result = .ok (some false)
  | .rewritten _ => result = .ok (some true)
  | .unread | .unwritten => ∃ cause, result = .error (.processing path cause)

theorem Reports.count_eq {fate : Fate} {path : Text} {result : Handled}
    (h : fate.Reports path result) (tally : Tally) :
    Handled.count tally result = fate.count tally := by
  cases fate with
  | skipped | kept | rewritten _ =>
      obtain rfl : result = _ := h
      rfl
  | unread | unwritten =>
      obtain ⟨cause, rfl⟩ : ∃ cause, result = _ := h
      rfl

end Fate

namespace Batch

variable (batch : Batch)

-- ================================================ what concerns a batch

/-- The path by which a walk gets to an entry. -/
def pathTo (names : Place) : Text := Path.pathFrom batch.root names

/-- Whether the machine takes the path of an entry. -/
def reaches (names : Place) : Bool := Text.byteSize (batch.pathTo names) ≤ FileTree.maxPath

/-- Whether names are selected: neither the path from the root nor the
whole path is covered by the ignore list, and the pass changes files with
the last of the names. -/
def selects (names : Place) : Bool :=
  !batch.ignored.covers (FileTree.pathOf names) && !batch.ignored.covers (batch.pathTo names) &&
    (names.getLast?.bind FileKind.ofName?).any (·.supports batch.pass)

/-- Whether the batch takes an entry up. A directory is not taken up, but
one whose path is too long to be looked at cannot be told from a file. -/
def takesUp (names : Place) (node : Node) : Bool :=
  batch.selects names && !(node.isDirectory && batch.reaches names)

/-- The text that the batch reads from an entry. -/
def textOf? (names : Place) : Node → Option Text
  | .file content _ => if batch.reaches names then (Utf8.decode content).toOption else none
  | _ => none

/-- Whether the machine takes the temporary file beside an entry. -/
def canWrite (names : Place) : Bool :=
  FileTree.temporaryFits (batch.pathTo names) (names.getLastD [])

/-- What becomes of an entry. -/
def fateOf (dryRun : Bool) (source : WordSource) (names : Place) (node : Node) : Fate :=
  if batch.takesUp names node then
    match batch.textOf? names node with
    | none => .unread
    | some old =>
      match ((batch.pass.run batch.profile old).run source).result with
      | .error _ => .unread
      | .ok new =>
        if new = old then .kept
        else if dryRun || batch.canWrite names then .rewritten new
        else .unwritten
  else .skipped

/-- The word source behind an entry. -/
def sourceAfter (source : WordSource) (names : Place) (node : Node) : WordSource :=
  if batch.takesUp names node then
    match batch.textOf? names node with
    | none => source
    | some old => ((batch.pass.run batch.profile old).run source).state
  else source

-- ================================================== what the tree answers

/-- A tree in which a batch finds its root, without anything that would
lead it elsewhere. -/
structure Grounded (top : Place) (tree : FileTree) : Prop where
  /-- The tree is one that a machine can hold. -/
  sound : tree.Sound
  /-- It has no links, and no temporary files. -/
  clear : tree.Clear
  /-- The root is a path. -/
  root_ne_nil : batch.root ≠ []
  /-- The root is a path that the machine takes. -/
  root_no_nul : '\x00' ∉ batch.root
  /-- The root leads to `top`. -/
  at_root : tree.directoryAt? batch.root = some top

variable {batch}

/-- An entry has a text if it is a file, can be reached, and decodes. -/
theorem textOf?_eq_some {names : Place} {node : Node} {old : Text} :
    batch.textOf? names node = some old ↔
      ∃ content mode, node = .file content mode ∧ batch.reaches names = true ∧
        Utf8.decode content = .ok old := by
  cases node with
  | file content mode =>
      cases hreaches : batch.reaches names with
      | false => simp [textOf?, hreaches]
      | true => cases hdecode : Utf8.decode content <;> simp [textOf?, hreaches, hdecode, Except.toOption]
  | directory => simp [textOf?]
  | link target => simp [textOf?]

/-- Whether a batch can run in a tree is a matter of the outline. -/
theorem Grounded.of_outline {top : Place} {tree tree' : FileTree}
    (h : tree'.outline = tree.outline) (hground : batch.Grounded top tree) :
    batch.Grounded top tree' := by
  refine ⟨hground.sound.of_outline h, hground.clear.of_outline h, hground.root_ne_nil,
    hground.root_no_nul, ?_⟩
  have henter : tree'.enter? = tree.enter? := by
    funext directory step
    unfold FileTree.enter?
    simp only [FileTree.directory_of_outline h]
  rw [← hground.at_root, FileTree.directoryAt?, FileTree.directoryAt?, henter,
    FileTree.start_of_home (FileTree.home_of_outline h)]

section
variable {top : Place} {tree : FileTree} (hground : batch.Grounded top tree)
include hground

theorem Grounded.isName {names : Place} {node : Node}
    (hget : tree.get? (top ++ names) = some node) {name : Name} (hname : name ∈ names) :
    Path.IsName name ∧ Text.byteSize name ≤ FileTree.maxName :=
  hground.sound.isName hget (List.mem_append_right top hname)

/-- The path to a directory leads to the directory. -/
theorem Grounded.directoryAt?_pathTo {names : Place}
    (hget : tree.get? (top ++ names) = some .directory) :
    tree.directoryAt? (batch.pathTo names) = some (top ++ names) := by
  have hnames (name : Name) (hname : name ∈ names) : Path.IsName name :=
    (hground.isName hget hname).1
  have hroot := hground.at_root
  rw [FileTree.directoryAt?] at hroot
  rw [FileTree.directoryAt?, pathTo, Path.stepsOf_pathFrom hnames, List.foldlM_append,
    FileTree.start_congr (Path.isAbsolute_pathFrom hnames), hroot]
  exact FileTree.foldlM_enter? hground.sound hget

/-- The path of an entry is a name behind the path of a directory, which
leads to the directory. -/
theorem Grounded.exists_join {names : Place} {node : Node} (hnames : names ≠ [])
    (hget : tree.get? (top ++ names) = some node) :
    ∃ directory name, names = directory ++ [name] ∧ Path.IsName name ∧
      Text.byteSize name ≤ FileTree.maxName ∧
      batch.pathTo names = Path.join (batch.pathTo directory) name ∧
      batch.pathTo directory ≠ [] ∧ '\x00' ∉ batch.pathTo directory ∧
      tree.directoryAt? (batch.pathTo directory) = some (top ++ directory) := by
  obtain ⟨directory, name, rfl⟩ : ∃ directory name, names = directory ++ [name] :=
    ⟨names.dropLast, names.getLast hnames, (List.dropLast_concat_getLast hnames).symm⟩
  have hname := hground.isName hget (List.mem_append_right directory (.head _))
  have hdirectory (n : Name) (hn : n ∈ directory) : Path.IsName n :=
    (hground.isName hget (List.mem_append_left [name] hn)).1
  rw [← List.append_assoc] at hget
  refine ⟨directory, name, rfl, hname.1, hname.2, Path.pathFrom_concat _ _ _,
    Path.pathFrom_ne_nil hdirectory hground.root_ne_nil,
    Path.nul_not_mem_pathFrom hdirectory hground.root_no_nul,
    hground.directoryAt?_pathTo (hground.sound.directory_of_below (by simp) hget)⟩

/-- What a call finds at the path of an entry. -/
theorem Grounded.locate_pathTo {names : Place} {node : Node} (hnames : names ≠ [])
    (hget : tree.get? (top ++ names) = some node) (intent : FileTree.Intent) :
    tree.locate intent (batch.pathTo names) =
      if batch.reaches names then .ok (.node (top ++ names) node) else .error .nameTooLong := by
  obtain ⟨directory, name, rfl, hname, hsize, hpath, -, hnul, hat⟩ :=
    hground.exists_join hnames hget
  rw [← List.append_assoc] at hget
  rw [reaches, hpath, ← List.append_assoc]
  by_cases hfits : Text.byteSize (Path.join (batch.pathTo directory) name) ≤ FileTree.maxPath
  · have hlink (target : Text) : tree.get? (top ++ directory ++ [name]) ≠ some (.link target) :=
      hground.clear.no_link _ target
    rw [FileTree.locate_join hlink hat hname hnul hfits, if_neg (Nat.not_lt.2 hsize),
      FileTree.targetIn_of_some hget, if_pos (by simpa using hfits)]
  · rw [FileTree.locate_of_long (Path.nul_not_mem_join hname hnul) (Nat.not_le.1 hfits),
      if_neg (by simpa using hfits)]

section
variable {names : Place} {node : Node} (hnames : names ≠ [])
  (hget : tree.get? (top ++ names) = some node)
include hnames hget

/-- A directory is seen as one only where its path is not too long. -/
private theorem Grounded.isDirectory_pathTo :
    tree.isDirectory (batch.pathTo names) = (node.isDirectory && batch.reaches names) := by
  rw [FileTree.isDirectory, FileTree.lookAt, hground.locate_pathTo hnames hget]
  cases hreaches : batch.reaches names with
  | false => simp
  | true => cases node <;> simp [Node.isDirectory]

/-- An entry is ignored by its path from the root or by its whole path. -/
private theorem Grounded.ignores_pathTo :
    batch.ignored.ignores batch.root (batch.pathTo names) =
      (batch.ignored.covers (FileTree.pathOf names) || batch.ignored.covers (batch.pathTo names)) := by
  have hall (name : Name) (hname : name ∈ names) : Path.IsName name :=
    (hground.isName hget hname).1
  rw [IgnoreList.ignores, pathTo, Path.relative?_pathFrom hall hnames hground.root_ne_nil]
  rfl

/-- Whether the pass takes a file is decided by its name. -/
private theorem Grounded.takes_pathTo :
    batch.takes (batch.pathTo names)
      = (names.getLast?.bind FileKind.ofName?).any (·.supports batch.pass) := by
  obtain ⟨directory, name, rfl, hname, -, hpath, hne, -⟩ := hground.exists_join hnames hget
  rw [takes, FileKind.ofPath?, hpath, Path.fileName?_join hname hne, List.getLast?_concat]

/-- The text of an entry, as a call reads it. -/
theorem Grounded.readSource_pathTo :
    (tree.readSource (batch.pathTo names)).toOption = batch.textOf? names node := by
  rw [FileTree.readSource, FileTree.readBytes, FileTree.lookAt, hground.locate_pathTo hnames hget]
  cases hreaches : batch.reaches names with
  | false => cases node <;> simp [textOf?, hreaches, Except.toOption]
  | true =>
      cases node with
      | file content mode =>
          simp only [if_true, textOf?, hreaches]
          cases Utf8.decode content <;> rfl
      | directory => rfl
      | link target => rfl

-- ================================================================= a visit

/-- Revising an entry from which no text can be read fails. -/
theorem Grounded.revise_of_none (source : WordSource) (htext : batch.textOf? names node = none) :
    ∃ cause, (batch.revise (batch.pathTo names)).run ⟨tree, source⟩
      = ⟨.error cause, [], ⟨tree, source⟩⟩ := by
  have hread := hground.readSource_pathTo hnames hget
  rw [htext] at hread
  cases hsource : tree.readSource (batch.pathTo names) with
  | ok old => simp [hsource, Except.toOption] at hread
  | error cause => exact ⟨cause, revise_of_error hsource⟩

/-- Revising an entry with a text runs the pass on the text. -/
theorem Grounded.revise_of_some (source : WordSource) {old : Text}
    (htext : batch.textOf? names node = some old) :
    let o := (batch.pass.run batch.profile old).run source
    (batch.revise (batch.pathTo names)).run ⟨tree, source⟩
      = ⟨o.result.map fun new => if new = old then .unchanged else .write new, o.log,
          ⟨tree, o.state⟩⟩ := by
  have hread := hground.readSource_pathTo hnames hget
  rw [htext] at hread
  cases hsource : tree.readSource (batch.pathTo names) with
  | error cause => simp [hsource, Except.toOption] at hread
  | ok text =>
      obtain rfl : text = old := by simpa [hsource, Except.toOption] using hread
      exact revise_of_text hsource

/-- What a batch takes up is what it finds neither to be a directory nor to
be ignored, and to have a name for the pass. -/
theorem Grounded.takesUp_eq :
    batch.takesUp names node = batch.concerns tree (batch.pathTo names) := by
  rw [takesUp, selects, concerns, hground.isDirectory_pathTo hnames hget,
    hground.ignores_pathTo hnames hget, hground.takes_pathTo hnames hget, Bool.not_or]
  cases node.isDirectory && batch.reaches names <;> simp

theorem Grounded.process_of_skipped (source : WordSource)
    (htakes : batch.takesUp names node = false) :
    ∃ events, (batch.process (batch.pathTo names)).run ⟨tree, source⟩
      = ⟨.ok none, events, ⟨tree, source⟩⟩ := by
  rw [hground.takesUp_eq hnames hget] at htakes
  exact process_of_not_concerns htakes

theorem Grounded.process_of_takesUp (source : WordSource)
    (htakes : batch.takesUp names node = true) :
    let o := (batch.revise (batch.pathTo names)).run ⟨tree, source⟩
    (batch.process (batch.pathTo names)).run ⟨tree, source⟩
      = ⟨(o.result.mapError (.processing (batch.pathTo names))).map some,
          .processing (batch.pathTo names) :: o.log, o.state⟩ := by
  rw [hground.takesUp_eq hnames hget] at htakes
  exact process_of_concerns htakes

omit hget in
/-- Overwriting a file puts the new content in its place, or fails and
leaves the tree alone. -/
theorem Grounded.overwrite_pathTo {content : Bytes} {mode : Nat}
    (hget : tree.get? (top ++ names) = some (.file content mode))
    (hreaches : batch.reaches names = true) (source : WordSource) (new : Text) :
    if batch.canWrite names then
      (overwrite (batch.pathTo names) new).run ⟨tree, source⟩
        = ⟨.ok (), [], ⟨tree.put (top ++ names) (.file (Utf8.encode new) mode), source⟩⟩
    else ∃ cause, (overwrite (batch.pathTo names) new).run ⟨tree, source⟩
        = ⟨.error cause, [], ⟨tree, source⟩⟩ := by
  have htemporary := hground.clear.no_temporary _ _ _ hget
  obtain ⟨directory, name, rfl, hname, hsize, hpath, hne, hnul, hat⟩ :=
    hground.exists_join hnames hget
  rw [← List.append_assoc] at hget htemporary
  rw [FileTree.temporaryPlace, List.dropLast_concat, List.getLastD_concat] at htemporary
  rw [reaches, hpath, decide_eq_true_eq] at hreaches
  have hcourse := FileTree.overwrite_join hat hname hsize hne hnul hreaches hget htemporary new
  simp only at hcourse
  rw [canWrite, List.getLastD_concat, hpath, ← List.append_assoc]
  show if _ then Outcome.mk _ _ _ = _ else ∃ cause, Outcome.mk _ _ _ = _
  split
  · next hfit =>
    rw [if_pos hfit] at hcourse
    rw [hcourse.1, hcourse.2]
  · next hfit =>
    rw [if_neg hfit] at hcourse
    obtain ⟨⟨fault, hresult⟩, hfinal⟩ := hcourse
    exact ⟨.system fault, by rw [hresult, hfinal]⟩

omit hget in
/-- Applying a new text to a file. -/
theorem Grounded.apply_write {content : Bytes} {mode : Nat}
    (hget : tree.get? (top ++ names) = some (.file content mode))
    (hreaches : batch.reaches names = true) (dryRun : Bool) (source : WordSource) (new : Text) :
    let o := (apply dryRun (batch.pathTo names) (.write new)).run ⟨tree, source⟩
    if dryRun || batch.canWrite names then
      o.result = .ok true ∧
        o.state = ⟨(Fate.rewritten new).fulfil dryRun (top ++ names) (.file content mode) tree,
          source⟩
    else (∃ cause, o.result = .error (.processing (batch.pathTo names) cause)) ∧
      o.state = ⟨tree, source⟩ := by
  cases dryRun with
  | true => exact ⟨rfl, rfl⟩
  | false =>
      have hwrite := hground.overwrite_pathTo hnames hget hreaches source new
      intro o
      have ho : o = (apply false (batch.pathTo names) (.write new)).run ⟨tree, source⟩ := rfl
      rw [apply, if_neg (by simp), Action.run_bind, Action.run_onFailure] at ho
      rw [Bool.false_or]
      split
      · next hfit =>
        rw [if_pos hfit] at hwrite
        rw [ho, hwrite]
        exact ⟨rfl, rfl⟩
      · next hfit =>
        rw [if_neg hfit] at hwrite
        obtain ⟨cause, hwrite⟩ := hwrite
        rw [ho, hwrite]
        exact ⟨⟨cause, rfl⟩, rfl⟩

/-- Handling an entry with a text runs the pass on it, and applies a new
text. -/
theorem Grounded.handle_of_text (htakes : batch.takesUp names node = true) {old : Text}
    (htext : batch.textOf? names node = some old) (dryRun : Bool) (source : WordSource) :
    let fate := batch.fateOf dryRun source names node
    let o := (batch.handle dryRun (batch.pathTo names)).run ⟨tree, source⟩
    fate.Reports (batch.pathTo names) o.result ∧
      o.state = ⟨fate.fulfil dryRun (top ++ names) node tree,
        ((batch.pass.run batch.profile old).run source).state⟩ := by
  intro fate o
  have ho : o = (batch.handle dryRun (batch.pathTo names)).run ⟨tree, source⟩ := rfl
  rw [handle, Action.run_bind, hground.process_of_takesUp hnames hget source htakes,
    hground.revise_of_some hnames hget source htext] at ho
  cases hresult : ((batch.pass.run batch.profile old).run source).result with
  | error cause =>
      have hfate : fate = .unread := by simp [fate, fateOf, htakes, htext, hresult]
      rw [ho, hfate, hresult]
      exact ⟨⟨cause, rfl⟩, rfl⟩
  | ok new =>
      simp only [hresult, Except.map, Except.mapError, Action.goOn_ok] at ho
      by_cases hsame : new = old
      · have hfate : fate = .kept := by simp [fate, fateOf, htakes, htext, hresult, hsame]
        rw [if_pos hsame] at ho
        rw [ho, hfate]
        exact ⟨rfl, rfl⟩
      · obtain ⟨content, mode, rfl, hreaches, -⟩ := textOf?_eq_some.1 htext
        have happly := hground.apply_write hnames hget hreaches dryRun
          ((batch.pass.run batch.profile old).run source).state new
        rw [if_neg hsame] at ho
        simp only [Action.run_bind, Action.goOn_pure] at ho
        simp only at happly
        rw [ho]
        -- a dry run takes every text for written
        cases hfit : dryRun || batch.canWrite names with
        | true =>
            have hfate : fate = .rewritten new := by
              simp [fate, fateOf, htakes, htext, hresult, hsame, hfit]
            rw [if_pos hfit] at happly
            rw [hfate, happly.1, happly.2]
            exact ⟨rfl, rfl⟩
        | false =>
            have hfate : fate = .unwritten := by
              simp [fate, fateOf, htakes, htext, hresult, hsame, hfit]
            rw [if_neg (by simp [hfit])] at happly
            obtain ⟨⟨cause, hcause⟩, hstate⟩ := happly
            rw [hfate, hcause, hstate]
            exact ⟨⟨cause, rfl⟩, rfl⟩

/-- Handling an entry fulfils its fate and reports it. -/
theorem Grounded.handle_run (dryRun : Bool) (source : WordSource) :
    let fate := batch.fateOf dryRun source names node
    let o := (batch.handle dryRun (batch.pathTo names)).run ⟨tree, source⟩
    fate.Reports (batch.pathTo names) o.result ∧
      o.state = ⟨fate.fulfil dryRun (top ++ names) node tree,
        batch.sourceAfter source names node⟩ := by
  intro fate o
  have ho : o = (batch.handle dryRun (batch.pathTo names)).run ⟨tree, source⟩ := rfl
  rw [handle, Action.run_bind] at ho
  cases htakes : batch.takesUp names node with
  | false =>
      obtain ⟨events, hprocess⟩ := hground.process_of_skipped hnames hget source htakes
      have hfate : fate = .skipped := by simp [fate, fateOf, htakes]
      rw [ho, hfate, hprocess]
      simp [Fate.Reports, Fate.fulfil, sourceAfter, htakes]
  | true =>
      cases htext : batch.textOf? names node with
      | none =>
          obtain ⟨cause, hrevise⟩ := hground.revise_of_none hnames hget source htext
          have hfate : fate = .unread := by simp [fate, fateOf, htakes, htext]
          rw [hground.process_of_takesUp hnames hget source htakes, hrevise] at ho
          rw [ho, hfate]
          refine ⟨⟨cause, rfl⟩, ?_⟩
          simp [Except.mapError, Except.map, Fate.fulfil, sourceAfter, htakes, htext]
      | some old =>
          have hafter : batch.sourceAfter source names node
              = ((batch.pass.run batch.profile old).run source).state := by
            simp [sourceAfter, htakes, htext]
          rw [hafter]
          exact hground.handle_of_text hnames hget htakes htext dryRun source

/-- A visit comes to the fate of its entry. -/
theorem Grounded.visit_run (dryRun : Bool) (source : WordSource) (tally : Tally) :
    let fate := batch.fateOf dryRun source names node
    ∃ events, (batch.visit dryRun (batch.pathTo names) tally).run ⟨tree, source⟩
      = ⟨.ok (fate.count tally), events,
          ⟨fate.fulfil dryRun (top ++ names) node tree, batch.sourceAfter source names node⟩⟩ := by
  intro fate
  obtain ⟨hreports, hstate⟩ := hground.handle_run hnames hget dryRun source
  obtain ⟨events, hvisit⟩ :=
    run_visit batch dryRun (batch.pathTo names) tally ⟨tree, source⟩
  exact ⟨events, by rw [hvisit, hreports.count_eq, hstate]⟩

end

end

end Batch

end TaggedSource

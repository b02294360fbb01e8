/-
A batch run rewrites the selected files and leaves everything else alone.

What a run comes to (see `BatchRun`) is said here place by place, for a
batch of a catalogue: the content of a selected file is what the pass
makes of its text, with the word source as the files before it have left
it, and everything else is as it was (`run_rewrites_selected`).

The machine takes paths up to a length only. A file behind a longer path
cannot be read, and a directory behind one cannot be listed, which ends a
recursive run (`long_paths_not_rewritten`).
-/
import Mathlib.Data.List.Permutation
import TaggedSource.Proofs.BatchRun
import TaggedSource.Proofs.Catalogue

namespace TaggedSource

namespace Batch

variable {batch : Batch}

-- ========================================================= what is left

variable (batch) in
/-- What a run has made of a tree in which its root is at `top`. -/
structure Rewrites (recursive : Bool) (top : Place) (tree : FileTree) (source : WordSource)
    (o : Outcome Workspace Tally) : Prop where
  /-- The run fails at the first directory that it would have to list and
  cannot, and else gives the counts of what became of the entries. -/
  result : o.result = batch.verdict (batch.blocks recursive) (tree.below top recursive)
    (Fate.tally (batch.fates false source (batch.met tree top recursive)))
  /-- The files have taken their words one after the other. -/
  drawn : o.state.source = batch.sourceBehind source (batch.met tree top recursive)
  /-- A selected file holds what the pass makes of its text, if that can be
  written, and has its old permission bits. -/
  selected : ∀ before names content mode after,
    batch.met tree top recursive = before ++ (names, .file content mode) :: after →
    batch.selects names = true → batch.reaches names = true →
    ∀ old, Utf8.decode content = .ok old →
      ∃ new, ((batch.pass.run batch.profile old).run (batch.sourceBehind source before)).result
          = .ok new ∧
        o.state.tree.get? (top ++ names)
          = some (.file (if batch.canWrite names then Utf8.encode new else content) mode)
  /-- Nothing else is touched. -/
  others : ∀ place,
    (∀ names content mode old, (names, .file content mode) ∈ batch.met tree top recursive →
      batch.selects names = true → batch.reaches names = true →
      Utf8.decode content = .ok old → place ≠ top ++ names) →
    o.state.tree.get? place = tree.get? place

/-- A run from a directory rewrites what it selects, and that is all it
does. -/
private theorem Grounded.rewrites {top : Place} {tree : FileTree}
    (hground : batch.Grounded top tree)
    (hlocate : tree.locate .target batch.root = .ok (.node top .directory))
    (hvalid : batch.profile.validate = .ok ()) (recursive : Bool) (source : WordSource) :
    batch.Rewrites recursive top tree source
      ((batch.run ⟨recursive, false⟩).run ⟨tree, source⟩) := by
  obtain ⟨hresult, hstate, -⟩ := hground.run_run hlocate recursive false source
  have hdistinct : (batch.met tree top recursive).Pairwise fun a b => a.1 ≠ b.1 :=
    pairwise_met hground.sound top recursive
  have hentries (entry : Place × Node) (hmem : entry ∈ batch.met tree top recursive) :=
    get?_of_mem_met hground.sound hmem
  refine ⟨hresult, congrArg (·.source) hstate, ?_, ?_⟩
  · -- the pass cannot fail on a valid profile, so the fate is settled by the
    -- text and by what can be written
    intro before names content mode after hmet hselects hreaches old hdecode
    obtain ⟨new, hnew⟩ := Pass.run_of_validate hvalid batch.pass old
      (batch.sourceBehind source before)
    refine ⟨new, hnew, ?_⟩
    rw [hmet] at hdistinct hentries
    rw [hstate, hmet, get?_treeBehind (fun entry hmem => (hentries entry hmem).1) hdistinct
      (hentries (names, _) (by simp)).2, nodeAfter_of_text hselects hreaches hdecode hnew]
  · intro place hplace
    rw [hstate]
    refine get?_treeBehind_of_no_text hground.sound (fun names node hmem hat hselects => ?_) source
    cases htext : batch.textOf? names node with
    | none => rfl
    | some old =>
        obtain ⟨content, mode, rfl, hreaches, hdecode⟩ := textOf?_eq_some.1 htext
        exact absurd hat (hplace names content mode old hmem hselects hreaches hdecode)

/-- A run of a batch of a catalogue writes the selected files that it can
read and write, and leaves everything else as it is. -/
theorem run_rewrites_selected {profiles : List Profile} {catalogue : Catalogue}
    (hcatalogue : ((Catalogue.ofProfiles profiles : Action Unit Catalogue).run ()).result
      = .ok catalogue)
    {project : Text} {pass : Pass} {root : Text} {ignored : IgnoreList} {batch : Batch}
    (hbatch : forProject catalogue project pass root ignored = .ok batch)
    {tree : FileTree} (hsound : tree.Sound) (hclear : tree.Clear) (recursive : Bool)
    (source : WordSource) :
    let o := (batch.run ⟨recursive, false⟩).run ⟨tree, source⟩
    o.state.tree.places = tree.places ∧ o.state.tree.home = tree.home ∧
    (∀ top, tree.locate .target root = .ok (.node top .directory) →
      batch.Rewrites recursive top tree source o) ∧
    ((∀ top, tree.locate .target root ≠ .ok (.node top .directory)) →
      o.result = ((tree.lookAt .target root).mapError (.walk root)).map (fun _ => {}) ∧
      o.state = ⟨tree, source⟩) := by
  obtain ⟨profile, hprofile, rfl⟩ := exists_of_forProject hbatch
  have hvalid := Catalogue.validate_of_ofProfiles hcatalogue profile
    (Catalogue.mem_of_get_ok hprofile).1
  intro o
  by_cases hroot : ∃ top, tree.locate .target root = .ok (.node top .directory)
  · obtain ⟨top, hlocate⟩ := hroot
    have hground : (Batch.mk profile pass root ignored).Grounded top tree :=
      Grounded.of_locate hsound hclear hlocate
    obtain ⟨-, -, houtline⟩ := hground.run_run hlocate recursive false source
    refine ⟨FileTree.places_of_outline houtline, FileTree.home_of_outline houtline, ?_, ?_⟩
    · intro top' hlocate'
      rw [hlocate] at hlocate'
      cases hlocate'
      exact hground.rewrites hlocate hvalid recursive source
    · intro hnone
      exact absurd hlocate (hnone top)
  · have hlook : tree.lookAt .target root ≠ .ok .directory := by
      intro hlook
      obtain ⟨top, hlocate⟩ := FileTree.locate_of_lookAt hlook
      exact hroot ⟨top, hlocate⟩
    obtain ⟨hresult, hstate⟩ : o.result = _ ∧ o.state = _ :=
      run_of_not_directory hlook recursive false source
    rw [hstate]
    exact ⟨rfl, rfl, fun top hlocate => absurd ⟨top, hlocate⟩ hroot, fun _ => ⟨hresult, rfl⟩⟩

/-- A profile that replaces a word by a random one. -/
def noticeProfile : Profile where
  id := text "Notice"
  copyrightStrings := [⟨text "old", text "@Random(2)"⟩]

/-- A batch of that profile. -/
def noticeBatch : Batch where
  profile := noticeProfile
  pass := .copyright
  root := text "."
  ignored := .none

/-- A tree with two files that the batch selects, one of them in a
directory, and one that it does not. -/
def noticeTree : FileTree where
  home := [text "w"]
  entries :=
    [([text "w"], .directory),
      ([text "w", text "lib", text "b.swift"], .file (Utf8.encode (text "old")) 420),
      ([text "w", text "lib"], .directory),
      ([text "w", text "c.txt"], .file (Utf8.encode (text "old")) 420),
      ([text "w", text "a.js"], .file (Utf8.encode (text "old x")) 493)]

/-- Words for two letters. -/
def noticeWords : WordSource := WordSource.ofWords [0x08000000, 0x0C000000] 0

/-- What the batch gets to before the second file that it selects. -/
def noticeBefore : List (Place × Node) :=
  [([text "a.js"], .file (Utf8.encode (text "old x")) 493),
    ([text "c.txt"], .file (Utf8.encode (text "old")) 420),
    ([text "lib"], .directory)]

/-- The run meets the files in the order of their places. -/
private theorem met_noticeTree : noticeBatch.met noticeTree [text "w"] true =
    noticeBefore ++ [([text "lib", text "b.swift"], .file (Utf8.encode (text "old")) 420)] := by cbv

private theorem sourceBehind_noticeBefore :
    noticeBatch.sourceBehind noticeWords noticeBefore = noticeWords.advance := by
  have htakes : noticeBatch.takesUp [text "a.js"] (.file (Utf8.encode (text "old x")) 493)
      = true := by decide
  have htext : noticeBatch.textOf? [text "a.js"] (.file (Utf8.encode (text "old x")) 493)
      = some (text "old x") :=
    textOf?_eq_some.2 ⟨_, _, rfl, by decide, Utf8.decode_encode _⟩
  have hfirst : noticeBatch.sourceAfter noticeWords [text "a.js"]
      (.file (Utf8.encode (text "old x")) 493) = noticeWords.advance := by
    rw [sourceAfter, if_pos htakes, htext]
    cbv
  have hsecond : noticeBatch.takesUp [text "c.txt"] (.file (Utf8.encode (text "old")) 420)
      = false := by decide
  have hthird : noticeBatch.takesUp [text "lib"] .directory = false := by decide
  rw [sourceBehind, noticeBefore, List.foldl_cons, hfirst]
  simp [sourceAfter, hsecond, hthird]

/-- The two files are written with the two letters, in order; the third is
as it was. -/
theorem run_rewrites_selected_noticeTree :
    ((Catalogue.ofProfiles [noticeProfile] : Action Unit Catalogue).run ()).result
        = .ok ⟨[noticeProfile]⟩ ∧
      forProject ⟨[noticeProfile]⟩ (text "Notice") .copyright (text ".") .none = .ok noticeBatch ∧
      noticeTree.Sound ∧ noticeTree.Clear ∧
      let o := (noticeBatch.run ⟨true, false⟩).run ⟨noticeTree, noticeWords⟩
      o.state.tree.places = noticeTree.places ∧
        o.state.tree.get? [text "w", text "a.js"] = some (.file (Utf8.encode (text "_C x")) 493) ∧
        o.state.tree.get? [text "w", text "lib", text "b.swift"]
          = some (.file (Utf8.encode (text "_D")) 420) ∧
        o.state.tree.get? [text "w", text "c.txt"]
          = some (.file (Utf8.encode (text "old")) 420) := by
  have hcatalogue : ((Catalogue.ofProfiles [noticeProfile] : Action Unit Catalogue).run ()).result
      = .ok ⟨[noticeProfile]⟩ := by decide
  have hbatch : forProject ⟨[noticeProfile]⟩ (text "Notice") .copyright (text ".") .none
      = .ok noticeBatch := rfl
  have hsound : noticeTree.Sound := by decide
  have hclear : noticeTree.Clear := by decide
  have hlocate : noticeTree.locate .target (text ".") = .ok (.node [text "w"] .directory) := by cbv
  obtain ⟨hplaces, -, hroot, -⟩ :=
    run_rewrites_selected hcatalogue hbatch hsound hclear true noticeWords
  have hrewrites := hroot [text "w"] hlocate
  refine ⟨hcatalogue, hbatch, hsound, hclear, hplaces, ?_, ?_, ?_⟩
  · obtain ⟨new, hnew, hget⟩ := hrewrites.selected [] [text "a.js"] _ _ _ met_noticeTree (by decide)
      (by decide) (text "old x") (Utf8.decode_encode _)
    have hresult : ((noticeBatch.pass.run noticeBatch.profile (text "old x")).run
        (noticeBatch.sourceBehind noticeWords [])).result = .ok (text "_C x") := by cbv
    cases hnew.symm.trans hresult
    exact hget
  · obtain ⟨new, hnew, hget⟩ := hrewrites.selected noticeBefore [text "lib", text "b.swift"]
      (Utf8.encode (text "old")) 420 [] met_noticeTree (by decide) (by decide) (text "old")
      (Utf8.decode_encode _)
    have hresult : ((noticeBatch.pass.run noticeBatch.profile (text "old")).run
        noticeWords.advance).result = .ok (text "_D") := by cbv
    rw [sourceBehind_noticeBefore] at hnew
    cases hnew.symm.trans hresult
    exact hget
  · refine hrewrites.others [text "w", text "c.txt"] ?_
    rintro names content mode old - hselects - - hplace
    obtain rfl : names = [text "c.txt"] := (List.cons.inj hplace).2.symm
    exact absurd hselects (by decide)

-- ============================================ a path that is too long

/-- The working directory, with slashes behind it. -/
def slashedRoot (n : Nat) : Text := '.' :: List.replicate n '/'

/-- However many slashes stand behind the dot, the path has no step. -/
private theorem stepsOf_slashedRoot (n : Nat) : Path.stepsOf (slashedRoot n) = [] := by
  have hslashes (n : Nat) : Path.stepsOf (List.replicate n '/') = [] := by
    induction n with
    | zero => rfl
    | succ n ih => rw [List.replicate_succ, Path.stepsOf_slash_cons, ih]
  cases n with
  | zero => decide
  | succ n =>
      rw [slashedRoot, List.replicate_succ, Path.stepsOf_dot_slash_cons]
      exact hslashes n

private theorem byteSize_slashedRoot (n : Nat) : Text.byteSize (slashedRoot n) = n + 1 := by
  have hslashes (n : Nat) : Text.byteSize (List.replicate n '/') = n := by
    induction n with
    | zero => rfl
    | succ n ih =>
        rw [List.replicate_succ, Text.byteSize, ih, Nat.add_comm]
        rfl
  rw [slashedRoot, Text.byteSize, hslashes, Nat.add_comm]
  rfl

private theorem locate_slashedRoot (tree : FileTree) {n : Nat} (h : n + 1 ≤ FileTree.maxPath) :
    tree.locate .target (slashedRoot n) = .ok (.node tree.home .directory) := by
  apply FileTree.locate_directory
  · rw [FileTree.directoryAt?, stepsOf_slashedRoot]
    rfl
  · simp [slashedRoot, List.mem_replicate]
  · exact List.cons_ne_nil _ _
  · rw [byteSize_slashedRoot]
    exact h

/-- An entry is out of reach if its name makes the path too long. -/
private theorem not_reaches_of_long {name : Name} (hname : Path.IsName name)
    (h : FileTree.maxPath < Text.byteSize batch.root + Text.byteSize name) :
    batch.reaches [name] = false := by
  have hstem : Text.byteSize batch.root ≤ Text.byteSize (Path.stem batch.root) := by
    unfold Path.stem
    split <;> simp
  rw [reaches, pathTo, Path.pathFrom_cons, Path.pathFrom_nil, Path.join_eq hname,
    Text.byteSize_append, decide_eq_false_iff_not]
  omega

/-- The batch with a root that is almost as long as the machine takes. -/
def slashedBatch : Batch := { noticeBatch with root := slashedRoot 4093 }

/-- The root leaves no room for a name of two bytes. -/
private theorem not_reaches_slashedBatch {name : Name} (hname : Path.IsName name)
    (hsize : 1 < Text.byteSize name) : slashedBatch.reaches [name] = false := by
  apply not_reaches_of_long hname
  rw [slashedBatch, byteSize_slashedRoot, FileTree.maxPath]
  omega

private theorem grounded_slashedBatch : slashedBatch.Grounded [text "w"] noticeTree :=
  Grounded.of_locate (by decide) (by decide) (locate_slashedRoot noticeTree (by decide))

/-- A selected file with a text and a short name is not written, and counts
as failed, if its path has more bytes than the machine takes; and a run
that has to list a directory with such a path fails. -/
theorem long_paths_not_rewritten :
    ((Catalogue.ofProfiles [noticeProfile] : Action Unit Catalogue).run ()).result
        = .ok ⟨[noticeProfile]⟩ ∧
      forProject ⟨[noticeProfile]⟩ (text "Notice") .copyright (slashedRoot 4093) .none
        = .ok slashedBatch ∧
      noticeTree.Sound ∧ noticeTree.Clear ∧
      noticeTree.locate .target (slashedRoot 4093) = .ok (.node [text "w"] .directory) ∧
      ([text "a.js"], .file (Utf8.encode (text "old x")) 493) ∈ noticeTree.below [text "w"] false ∧
      slashedBatch.selects [text "a.js"] = true ∧
      Utf8.decode (Utf8.encode (text "old x")) = .ok (text "old x") ∧
      ((Pass.copyright.run noticeProfile (text "old x")).run noticeWords).result
        = .ok (text "_C x") ∧
      Text.byteSize (FileTree.temporaryName (text "a.js")) ≤ FileTree.maxName ∧
      let run (recursive : Bool) :=
        (slashedBatch.run ⟨recursive, false⟩).run ⟨noticeTree, noticeWords⟩
      (run false).result = .ok { processed := 0, changed := 0, failed := 1 } ∧
        (run true).result = .error (.walk (slashedBatch.pathTo [text "lib"]) .nameTooLong) ∧
        ∀ recursive, (run recursive).state.tree.get? [text "w", text "a.js"]
          = some (.file (Utf8.encode (text "old x")) 493) := by
  have hground := grounded_slashedBatch
  have hlocate : noticeTree.locate .target (slashedRoot 4093)
      = .ok (.node [text "w"] .directory) := locate_slashedRoot noticeTree (by decide)
  have hselects : slashedBatch.selects [text "a.js"] = true := by decide
  have hbelow : noticeTree.below [text "w"] false = noticeBefore := by cbv
  have hreaches : slashedBatch.reaches [text "a.js"] = false :=
    not_reaches_slashedBatch (by decide) (by decide)
  refine ⟨by decide, rfl, hground.sound, hground.clear, hlocate, ?_, hselects,
    Utf8.decode_encode _, by cbv, by decide, ?_, ?_, ?_⟩
  · rw [hbelow]
    exact .head _
  · -- the file is taken up and cannot be read; nothing else is taken up
    have hmet : slashedBatch.met noticeTree [text "w"] false = noticeBefore := by
      rw [met, hbelow]
      rfl
    have hfirst (source : WordSource) : slashedBatch.fateOf false source [text "a.js"]
        (.file (Utf8.encode (text "old x")) 493) = .unread := by
      simp [fateOf, takesUp, hselects, textOf?, hreaches, Node.isDirectory]
    have hsecond : slashedBatch.takesUp [text "c.txt"] (.file (Utf8.encode (text "old")) 420)
        = false := by decide
    have hthird : slashedBatch.takesUp [text "lib"] .directory = false := by decide
    have hfates : slashedBatch.fates false noticeWords noticeBefore
        = [.unread, .skipped, .skipped] := by
      simp only [fates, noticeBefore, hfirst]
      simp [fateOf, hsecond, hthird]
    obtain ⟨hresult, -, -⟩ := hground.run_run hlocate false false noticeWords
    rw [hresult, hmet, hfates, verdict, hbelow]
    rfl
  · have hblocks : (noticeTree.below [text "w"] true).find? (slashedBatch.blocks true)
        = some ([text "lib"], .directory) := by
      have hall : noticeTree.below [text "w"] true = noticeBefore ++
          [([text "lib", text "b.swift"], .file (Utf8.encode (text "old")) 420)] := by cbv
      have hdirectory : slashedBatch.reaches [text "lib"] = false :=
        not_reaches_slashedBatch (by decide) (by decide)
      rw [hall]
      simp [noticeBefore, blocks, Node.isDirectory, hdirectory]
    obtain ⟨hresult, -, -⟩ := hground.run_run hlocate true false noticeWords
    rw [hresult, verdict, hblocks]
  · intro recursive
    have hrewrites := hground.rewrites hlocate (by decide) recursive noticeWords
    refine hrewrites.others [text "w", text "a.js"] ?_
    rintro names content mode old - - hreaches' - hplace
    obtain rfl : names = [text "a.js"] := (List.cons.inj hplace).2.symm
    rw [hreaches] at hreaches'
    cases hreaches'

end Batch

end TaggedSource

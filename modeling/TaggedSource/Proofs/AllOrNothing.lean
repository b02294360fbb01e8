/-
Overwriting is all or nothing, in any tree where the temporary file's path
has no entry.

Between the calls the tree is the old one with a temporary file in it, and
that is all (`Staged`). The file has a name of its own and is no way, so
neither the path to be overwritten nor a path through it notices. A call
that fails is made up for by removing the file, which gives the old tree
back entry by entry; and a rename that does not fail has moved the file to
the place of the path's entry, so that is where the new tree differs.

A path may lead through the very link that is its entry: with a link `a` to
the directory it stands in, `a/a` is that link (`mirrorTree`). Then the new
file stands at the place of the entry, but the link was on the way there and
the path has no entry any more. That happens exactly if the path does not lead
to the place of its entry without that entry, so the theorem says it in this
way, and a path whose entry is no link has the new file as its entry.
-/
import Mathlib.Data.List.Permutation
import TaggedSource.Proofs.Routes

namespace TaggedSource.FileTree

variable {tree : FileTree}

-- ============================================================ overwriting

/-- A tree between the calls: a temporary file has come, and that is all. -/
def Staged (tree : FileTree) (name : Name) (state : FileTree) : Prop :=
  ∃ directory content mode, tree.get? (directory ++ [temporaryName name]) = none ∧
    state = tree.put (directory ++ [temporaryName name]) (.file content mode)

/-- How overwriting goes where the temporary file's path has no entry. -/
theorem overwrite_of_vacant {path : Text} (content : Text) {name : Name}
    (hname : Path.fileName? path = some name)
    (hvacant : tree.entryAt? (Path.sibling path (temporaryName name)) = none) :
    let course := tree.overwrite path content
    (∀ state ∈ course.between, tree.Staged name state) ∧
    ((∃ cause, course.result = .error cause) ∧ course.final = tree ∨
      course.result = .ok () ∧ ∃ directory name' given,
        tree.modeIfAny path = .ok given ∧ tree.EntryIn path directory name' ∧
        tree.get? (directory ++ [name']) ≠ some .directory ∧
        course.final = tree.put (directory ++ [name'])
          (.file (Utf8.encode content) (given.getD newFileMode))) := by
  intro course
  have hcourse : course = tree.overwrite path content := rfl
  simp only [overwrite, hname] at hcourse
  cases hgiven : tree.modeIfAny path with
  | error fault =>
      rw [hcourse]
      simp [hgiven]
  | ok given =>
  have htemporary := isName_temporaryName (Path.isName_of_fileName? hname (modeIfAny_eq_ok hgiven).1)
  cases hwrite : tree.writeBytes (Path.sibling path (temporaryName name)) (Utf8.encode content) with
  | error fault =>
      rw [hcourse]
      simp [hgiven, hwrite, discard_of_vacant hvacant]
  | ok written =>
  obtain ⟨directory, hjoin, hnone, rfl⟩ := writeBytes_of_vacant htemporary hvacant hwrite
  have hentry : tree.EntryIn (Path.sibling path (temporaryName name)) directory
      (temporaryName name) := hjoin
  have hstaged (mode : Nat) : tree.Staged name
      (tree.put (directory ++ [temporaryName name]) (.file (Utf8.encode content) mode)) :=
    ⟨directory, _, _, hnone, rfl⟩
  have hother : Path.fileName? path ≠ some (temporaryName name) := by
    rw [hname]
    exact fun heq => temporaryName_ne name (Option.some.inj heq).symm
  simp only [hgiven, hwrite, hentry.setModeIfAny_put _ _ hnone] at hcourse
  cases hrename : (tree.put (directory ++ [temporaryName name])
      (.file (Utf8.encode content) (given.getD newFileMode))).rename
      (Path.sibling path (temporaryName name)) path with
  | error fault =>
      simp only [hrename, hentry.discard_put _ _ hnone] at hcourse
      rw [hcourse]
      exact ⟨List.forall_mem_cons.2 ⟨hstaged _, List.forall_mem_singleton.2 (hstaged _)⟩,
        .inl ⟨⟨_, rfl⟩, rfl⟩⟩
  | ok final =>
      simp only [hrename] at hcourse
      rw [hcourse]
      obtain ⟨directory', name', hplace, hdirectory, hfinal⟩ :=
        hentry.rename_put _ _ hnone hother hrename
      exact ⟨List.forall_mem_cons.2 ⟨hstaged _, List.forall_mem_singleton.2 (hstaged _)⟩,
        .inr ⟨rfl, directory', name', given, rfl, hplace, hdirectory, hfinal⟩⟩

/-- The temporary file has a name of its own. -/
theorem getLast?_pieces_ne {path : Text} {name : Name} (hname : Path.fileName? path = some name) :
    (Path.pieces path).getLast? ≠ some (temporaryName name) := by
  have hlength := lt_length_temporaryName name
  intro hlast
  obtain ⟨front, hfront⟩ := List.getLast?_eq_some_iff.1 hlast
  have htemporary := Path.fileName?_of_pieces hfront (by rintro h; simp [h] at hlength)
    (by rintro h; simp [h] at hlength)
  rw [hname] at htemporary
  exact temporaryName_ne name (Option.some.inj htemporary).symm

/-- A call that fails leaves the tree as it was. One that does not leaves a
file with the content at the place of the path's entry, with the permission
bits of what the path led to or those of a new file, and no temporary file.
The path then has the file as its entry, unless it went through its own old
entry: then it has none. In between the path has its old entry. -/
theorem overwrite_all_or_nothing (tree : FileTree) (path content : Text)
    (hvacant : ∀ name, Path.fileName? path = some name →
      tree.entryAt? (Path.sibling path (temporaryName name)) = none) :
    let course := tree.overwrite path content
    (∀ cause, course.result = .error cause → course.final = tree) ∧
    (course.result = .ok () → ∃ name place mode,
      Path.fileName? path = some name ∧ tree.placeAt? path = some place ∧
      (tree.modeOf path = .ok mode ∨ tree.modeOf path = .error .noEntry ∧ mode = 0o644) ∧
      tree.get? place ≠ some .directory ∧
      course.final = tree.put place (.file (Utf8.encode content) mode) ∧
      (∀ other, course.final.get? other =
        if other = place then some (.file (Utf8.encode content) mode) else tree.get? other) ∧
      course.final.entryAt? (Path.sibling path (temporaryName name)) = none ∧
      course.final.entryAt? path =
        (if (tree.erase place).placeAt? path = some place
          then some (.file (Utf8.encode content) mode) else none) ∧
      ((∀ target, tree.get? place ≠ some (.link target)) →
        course.final.entryAt? path = some (.file (Utf8.encode content) mode))) ∧
    ∀ state ∈ course.between, state.entryAt? path = tree.entryAt? path := by
  intro course
  cases hname : Path.fileName? path with
  | none =>
      have hcourse : course = ⟨.error (.misconfigured (.notFilePath path)), [], tree⟩ := by
        show tree.overwrite path content = _
        rw [overwrite, hname]
      rw [hcourse]
      simp
  | some name =>
  obtain ⟨hbetween, hend⟩ := overwrite_of_vacant content hname (hvacant name hname)
  refine ⟨fun cause hcause => ?_, fun hok => ?_, fun state hstate => ?_⟩
  · rcases hend with ⟨-, hfinal⟩ | ⟨hok, -⟩
    · exact hfinal
    · exact absurd (hok.symm.trans hcause) (by simp)
  · rcases hend with ⟨⟨cause, hcause⟩, -⟩ | ⟨-, directory, name', given, hgiven, hentry, hrest⟩
    · exact absurd (hok.symm.trans hcause) (by simp)
    obtain ⟨hdirectory, hfinal⟩ := hrest
    have hplace : directory ++ [name'] ≠ [] := by simp
    have hentryAt := hentry.entryAt?_put hdirectory (Utf8.encode content) (given.getD newFileMode)
    rw [← hfinal] at hentryAt
    obtain rfl : name' = name := Option.some.inj
      ((Path.fileName?_of_pieces hentry.pieces_eq hentry.ne_dot hentry.ne_dots).symm.trans hname)
    refine ⟨name', directory ++ [name'], given.getD newFileMode, rfl, hentry.placeAt?_eq,
      (modeIfAny_eq_ok hgiven).2, hdirectory, hfinal, fun other => ?_, ?_, hentryAt,
      fun hlink => hentryAt.trans (if_pos (hentry.placeAt?_erase hdirectory hlink))⟩
    · show course.final.get? other = _
      rw [hfinal, get?_put tree hplace]
    · have htemporary :=
        isName_temporaryName (Path.isName_of_fileName? hname (modeIfAny_eq_ok hgiven).1)
      refine Option.eq_none_iff_forall_ne_some.2 fun node hnode => ?_
      have hbefore : tree.entryAt? (Path.sibling path (temporaryName name')) = some node := by
        refine entryAt?_of_put hplace ?_ (hfinal ▸ hnode)
        rw [Path.sibling, Path.pieces_join htemporary, List.getLast?_concat, List.getLast?_concat]
        exact fun heq => temporaryName_ne name' (Option.some.inj heq).symm
      exact absurd ((hvacant name' hname).symm.trans hbefore) (by simp)
  · obtain ⟨directory, bytes, mode, hnone, rfl⟩ := hbetween state hstate
    refine entryAt?_put (by simp) ?_ hnone
    rw [List.getLast?_concat]
    exact (getLast?_pieces_ne hname).symm

/-- A link to a file beside it. -/
def linked : FileTree where
  home := []
  entries :=
    [([text "a.js"], .link (text "b.js")), ([text "b.js"], .file (Utf8.encode (text "old")) 0o600)]

/-- The link makes way for a file with the permission bits of the file that
it led to, and that file stays. -/
theorem overwrite_all_or_nothing_linked :
    let course := linked.overwrite (text "./a.js") (text "new")
    (∀ name, Path.fileName? (text "./a.js") = some name →
      linked.entryAt? (Path.sibling (text "./a.js") (temporaryName name)) = none) ∧
    course.result = .ok () ∧
    course.final.get? [text "a.js"] = some (.file (Utf8.encode (text "new")) 0o600) ∧
    course.final.get? [text "b.js"] = some (.file (Utf8.encode (text "old")) 0o600) ∧
    course.between.length = 2 ∧
    ∀ state ∈ course.between, state.entryAt? (text "./a.js") = some (.link (text "b.js")) := by
  have hname : Path.fileName? (text "./a.js") = some (text "a.js") := by decide
  have hmode : linked.modeOf (text "./a.js") = .ok 0o600 := by cbv
  have hplace : linked.placeAt? (text "./a.js") = some [text "a.js"] := by cbv
  have hentry : linked.entryAt? (text "./a.js") = some (.link (text "b.js")) := by cbv
  have hok : (linked.overwrite (text "./a.js") (text "new")).result = .ok () := by cbv
  have hvacant (name : Name) (h : Path.fileName? (text "./a.js") = some name) :
      linked.entryAt? (Path.sibling (text "./a.js") (temporaryName name)) = none := by
    obtain rfl : text "a.js" = name := Option.some.inj (hname.symm.trans h)
    cbv
  obtain ⟨-, hdone, hbetween⟩ :=
    overwrite_all_or_nothing linked (text "./a.js") (text "new") hvacant
  obtain ⟨name, place, mode, -, hplace', hmode', -, -, hget, -⟩ := hdone hok
  obtain rfl : [text "a.js"] = place := Option.some.inj (hplace.symm.trans hplace')
  obtain rfl : 0o600 = mode := by
    rcases hmode' with hmode' | ⟨hmode', -⟩ <;> rw [hmode] at hmode' <;> cases hmode'
    rfl
  refine ⟨hvacant, hok, ?_, ?_, by cbv, fun state hstate => (hbetween state hstate).trans hentry⟩
  · rw [hget, if_pos rfl]
  · rw [hget, if_neg (by decide)]
    cbv

/-- A directory with a link to itself. -/
def mirrorTree : FileTree where
  home := []
  entries := [([text "a"], .link (text "."))]

/-- A file that takes the place of a link on its own path is not what the path
leads to, although nothing failed: the path has neither its old entry nor the
new one. -/
theorem overwrite_loses_own_path :
    let course := mirrorTree.overwrite (text "a/a") (text "new")
    mirrorTree.entryAt? (Path.sibling (text "a/a") (temporaryName (text "a"))) = none ∧
    mirrorTree.entryAt? (text "a/a") = some (.link (text ".")) ∧
    course.result = .ok () ∧
    course.final.entries = [([text "a"], .file (Utf8.encode (text "new")) 0o755)] ∧
    course.final.entryAt? (text "a/a") = none ∧
    course.final.lookAt .entry (text "a/a") = .error .notDirectory := by
  refine ⟨?_, ?_, ?_, ?_, ?_, ?_⟩ <;> cbv

end TaggedSource.FileTree

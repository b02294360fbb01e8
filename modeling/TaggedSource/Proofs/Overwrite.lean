/-
Overwriting a file that is there, in a tree where its temporary file would
replace nothing.

There are two outcomes (`overwrite_join`). Either the temporary file has a
name and a path that the machine takes: then the file has the new content
and its old permission bits, in the old entry, and the temporary file is
gone without a trace. Or it has not, the call fails, and the tree is as it
was. What the calls between do to the tree cancels out, since the temporary
file's entry is the last one and only goes and comes.
-/
import TaggedSource.Proofs.Locate

namespace TaggedSource.FileTree

variable {tree : FileTree}

-- ============================================== entries that go and come

/-- What is put at a place that was not taken goes behind all else. -/
private theorem putIn_of_not_mem {place : Place} {node : Node} {entries : List (Place × Node)}
    (h : place ∉ entries.map (·.1)) : putIn place node entries = entries ++ [(place, node)] := by
  induction entries with
  | nil => rfl
  | cons entry entries ih =>
      rw [List.map_cons, List.mem_cons, not_or] at h
      rw [putIn, if_neg (Ne.symm h.1), ih h.2]
      rfl

theorem put_put (place : Place) (a b : Node) : (tree.put place a).put place b = tree.put place b := by
  have hput (entries : List (Place × Node)) :
      putIn place b (putIn place a entries) = putIn place b entries := by
    induction entries with
    | nil => simp [putIn]
    | cons entry entries ih =>
        by_cases h : entry.1 = place
        · simp [putIn, h]
        · simp [putIn, h, ih]
  unfold put
  rw [hput]

/-- Putting something at a vacant place and erasing it changes nothing. -/
theorem erase_put {place : Place} {node : Node} (hplace : place ≠ [])
    (h : tree.get? place = none) : (tree.put place node).erase place = tree := by
  have hmem := (get?_eq_none hplace).1 h
  have hkeep : tree.entries.filter (fun entry => decide (entry.1 ≠ place)) = tree.entries := by
    rw [List.filter_eq_self]
    intro entry hentry
    rw [decide_eq_true_eq]
    rintro rfl
    exact hmem (List.mem_map.2 ⟨entry, hentry, rfl⟩)
  unfold erase put
  rw [putIn_of_not_mem hmem, List.filter_append, hkeep]
  simp

-- ======================================================= the same directories

/-- A file that replaces no directory leaves all directories where they
were. -/
private theorem directoryAt?_put {place : Place} {content : Bytes} {mode : Nat}
    (hplace : place ≠ [])
    (h : tree.get? place ≠ some .directory) (path : Text) :
    (tree.put place (.file content mode)).directoryAt? path = tree.directoryAt? path := by
  have henter : (tree.put place (.file content mode)).enter? = tree.enter? := by
    funext directory step
    have hget : (tree.put place (.file content mode)).get? (directory ++ [step]) = some .directory
        ↔ tree.get? (directory ++ [step]) = some .directory := by
      rw [get?_put tree hplace]
      split
      · next heq => simp [heq, h]
      · rfl
    unfold enter?
    simp only [hget]
  unfold directoryAt?
  rw [henter]
  rfl

-- ============================================================ overwriting

theorem lt_length_temporaryName (name : Name) : 14 < (temporaryName name).length := by
  have htail : (text ".piranhito.tmp").length = 14 := by decide
  simp only [temporaryName, List.cons_append, List.length_cons, List.length_append, htail]
  omega

/-- The name of a temporary file is one that a directory can hold. -/
theorem isName_temporaryName {name : Name} (h : Path.IsName name) :
    Path.IsName (temporaryName name) := by
  have hslash : '/' ∉ text ".piranhito.tmp" := by decide
  have hnul : '\x00' ∉ text ".piranhito.tmp" := by decide
  have hlength := lt_length_temporaryName name
  constructor
  · simp [temporaryName]
  · simp [temporaryName, h.no_slash, hslash]
  · simp [temporaryName, h.no_nul, hnul]
  · intro hdot
    simp [hdot] at hlength
  · intro hdots
    simp [hdots] at hlength

/-- No file is its own temporary file. -/
theorem temporaryName_ne (name : Name) : temporaryName name ≠ name := by
  intro h
  have hlength := congrArg List.length h
  simp only [temporaryName, List.cons_append, List.length_cons, List.length_append] at hlength
  omega

/-- Whether the machine takes the temporary file beside a path that ends
in a name. -/
def temporaryFits (path : Text) (name : Name) : Bool :=
  Text.byteSize (temporaryName name) ≤ maxName &&
    Text.byteSize (Path.sibling path (temporaryName name)) ≤ maxPath

section
variable {base : Text} {directory : Place} {name : Name} {content : Bytes} {mode : Nat}
  (hbase : tree.directoryAt? base = some directory) (hname : Path.IsName name)
  (hsize : Text.byteSize name ≤ maxName) (hne : base ≠ []) (hnul : '\x00' ∉ base)
  (hfits : Text.byteSize (Path.join base name) ≤ maxPath)
  (hfile : tree.get? (directory ++ [name]) = some (.file content mode))
  (hvacant : tree.get? (directory ++ [temporaryName name]) = none)

include hbase hname hsize hnul hfits hfile in
private theorem locate_file (intent : Intent) :
    tree.locate intent (Path.join base name)
      = .ok (.node (directory ++ [name]) (.file content mode)) := by
  rw [locate_join (by simp [hfile]) hbase hname hnul hfits, if_neg (Nat.not_lt.2 hsize),
    targetIn_of_some hfile]

include hbase hname hnul hfits in
private theorem splitLast_join : tree.splitLast (Path.join base name) = .ok (directory, name) := by
  rw [splitLast,
    refusal?_of_fits (Path.nul_not_mem_join hname hnul) (Path.join_ne_nil hname) hfits]
  simp only
  rw [Path.pieces_join hname, List.dropLast_concat, start_congr (Path.isAbsolute_join hname),
    follow_of_directoryAt? hbase]
  simp

include hbase hname hne hnul in
/-- What the path of the temporary file leads to. -/
theorem locate_temporary (intent : Intent)
    (hlink : ∀ target, tree.get? (directory ++ [temporaryName name]) ≠ some (.link target)) :
    tree.locate intent (Path.sibling (Path.join base name) (temporaryName name)) =
      if temporaryFits (Path.join base name) name then
        .ok (tree.targetIn directory (temporaryName name))
      else .error .nameTooLong := by
  have htemporary := isName_temporaryName hname
  obtain ⟨base', hsibling, hsteps, habs, hnul'⟩ :=
    Path.sibling_join hname hne (temporaryName name)
  have hbase' : tree.directoryAt? base' = some directory := by
    rw [directoryAt?_congr hsteps habs, hbase]
  have hpath := Path.nul_not_mem_join htemporary (hnul' hnul)
  have hfit : temporaryFits (Path.join base name) name = true ↔
      Text.byteSize (temporaryName name) ≤ maxName ∧
        Text.byteSize (Path.join base' (temporaryName name)) ≤ maxPath := by
    rw [temporaryFits, hsibling, Bool.and_eq_true, decide_eq_true_eq, decide_eq_true_eq]
  rw [hsibling]
  by_cases hlong : maxPath < Text.byteSize (Path.join base' (temporaryName name))
  · rw [locate_of_long hpath hlong, if_neg (by rw [hfit]; omega)]
  · rw [locate_join hlink hbase' htemporary (hnul' hnul) (Nat.not_lt.1 hlong)]
    by_cases hlong' : maxName < Text.byteSize (temporaryName name)
    · rw [if_pos hlong', if_neg (by rw [hfit]; omega)]
    · rw [if_neg hlong', if_pos (by rw [hfit]; omega)]

section
variable (hfit : temporaryFits (Path.join base name) name = true) (bytes : Bytes)
include hfit hbase hname hne hnul hvacant

/-- The first call makes a new file beside the path. -/
private theorem writeBytes_temporary :
    tree.writeBytes (Path.sibling (Path.join base name) (temporaryName name)) bytes
      = .ok (tree.put (directory ++ [temporaryName name]) (.file bytes newFileMode)) := by
  rw [writeBytes, locate_temporary hbase hname hne hnul _ (by simp [hvacant]), if_pos hfit,
    targetIn_of_none hvacant]

/-- The second call gives it the old file's bits. -/
private theorem setModeIfAny_temporary :
    (tree.put (directory ++ [temporaryName name]) (.file bytes newFileMode)).setModeIfAny
        (Path.sibling (Path.join base name) (temporaryName name)) (some mode)
      = .ok (tree.put (directory ++ [temporaryName name]) (.file bytes mode)) := by
  have hplace : directory ++ [temporaryName name] ≠ [] := by simp
  have hmade := get?_put tree hplace (.file bytes newFileMode) (directory ++ [temporaryName name])
  rw [if_pos rfl] at hmade
  have hbase' : (tree.put (directory ++ [temporaryName name]) (.file bytes newFileMode)).directoryAt?
      base = some directory := by
    rw [directoryAt?_put hplace (by simp [hvacant]), hbase]
  rw [setModeIfAny, setMode, locate_temporary hbase' hname hne hnul _ (by simp [hmade]),
    if_pos hfit, targetIn_of_some hmade]
  simp only
  rw [put_put]

include hsize hfits hfile

/-- The third call puts it in the place of the old file. -/
private theorem rename_temporary :
    (tree.put (directory ++ [temporaryName name]) (.file bytes mode)).rename
        (Path.sibling (Path.join base name) (temporaryName name)) (Path.join base name)
      = .ok (tree.put (directory ++ [name]) (.file bytes mode)) := by
  have hplace : directory ++ [temporaryName name] ≠ [] := by simp
  have hother : directory ++ [name] ≠ directory ++ [temporaryName name] := by
    simpa using (temporaryName_ne name).symm
  let ready := tree.put (directory ++ [temporaryName name]) (.file bytes mode)
  have hready : ready.get? (directory ++ [temporaryName name]) = some (.file bytes mode) := by
    rw [get?_put tree hplace, if_pos rfl]
  have htarget : ready.get? (directory ++ [name]) = some (.file content mode) := by
    rw [get?_put tree hplace, if_neg hother, hfile]
  have hbase' : ready.directoryAt? base = some directory := by
    rw [directoryAt?_put hplace (by simp [hvacant]), hbase]
  show ready.rename _ _ = _
  rw [rename, splitLast_join hbase' hname hnul hfits]
  simp only [bind, Except.bind]
  rw [locate_temporary hbase' hname hne hnul _ (by simp [hready]), if_pos hfit,
    targetIn_of_some hready]
  simp only
  -- the target is another file, with a name of its own
  rw [if_neg (by simp [hname.ne_dot, hname.ne_dots]), if_neg (Nat.not_lt.2 hsize),
    if_neg (by simp [Path.endsInSlash_join hname]), if_neg (by simp [htarget, Node.isDirectory]),
    if_neg hother, erase_put hplace hvacant]

end

include hbase hname hsize hne hnul hfits hfile hvacant

/-- Overwriting a file through its temporary file. -/
theorem overwrite_join (new : Text) :
    let course := tree.overwrite (Path.join base name) new
    if temporaryFits (Path.join base name) name then
      course.result = .ok () ∧
        course.final = tree.put (directory ++ [name]) (.file (Utf8.encode new) mode)
    else (∃ fault, course.result = .error (.system fault)) ∧ course.final = tree := by
  have hmode : tree.modeIfAny (Path.join base name) = .ok (some mode) := by
    unfold modeIfAny modeOf lookAt
    rw [locate_file hbase hname hsize hnul hfits hfile]
  intro course
  have hcourse : course = tree.overwrite (Path.join base name) new := rfl
  rw [overwrite, Path.fileName?_join hname hne] at hcourse
  simp only [hmode] at hcourse
  split
  · next hfit =>
    rw [writeBytes_temporary hbase hname hne hnul hvacant hfit] at hcourse
    simp only [setModeIfAny_temporary hbase hname hne hnul hvacant hfit,
      rename_temporary hbase hname hsize hne hnul hfits hfile hvacant hfit] at hcourse
    rw [hcourse]
    exact ⟨rfl, rfl⟩
  · next hfit =>
    have hlocate (intent : Intent) :=
      locate_temporary hbase hname hne hnul intent (by simp [hvacant])
    have hwrite : tree.writeBytes (Path.sibling (Path.join base name) (temporaryName name))
        (Utf8.encode new) = .error .nameTooLong := by
      rw [writeBytes, hlocate, if_neg hfit]
    have hdiscard : tree.discard (Path.sibling (Path.join base name) (temporaryName name))
        = tree := by
      rw [discard, remove, hlocate, if_neg hfit]
    rw [hwrite, hdiscard] at hcourse
    rw [hcourse]
    exact ⟨⟨_, rfl⟩, rfl⟩

end

end TaggedSource.FileTree

/-
What paths lead to in a tree without links.

Without links, following a path is entering one directory after the other,
and pieces `.` on the way count for nothing. So a path that stays in
directories has a place (`directoryAt?`) that depends on its steps alone,
and a name behind such a path leads to what stands in that directory under
the name, or to nothing, or is too long (`locate_join`). The temporary file
beside a file has a path of its own, which need not begin like the path of
the file but has the same steps, so the same is said of both.

With links or without, where a path leads is a matter of the tree without
its contents (`locate_outline`).
-/
import TaggedSource.Proofs.FileTree

namespace TaggedSource.FileTree

variable {tree : FileTree}

-- ================================================== entering directories

/-- The directory that a step leads to from another. -/
def enter? (tree : FileTree) (directory : Place) (step : Text) : Option Place :=
  if step = ['.', '.'] then some directory.dropLast
  else if Text.byteSize step ≤ maxName ∧ tree.get? (directory ++ [step]) = some .directory then
    some (directory ++ [step])
  else none

/-- The directory that a path leads to, if all on its way are directories. -/
def directoryAt? (tree : FileTree) (path : Text) : Option Place :=
  (Path.stepsOf path).foldlM tree.enter? (tree.start path)

private theorem enter?_name {directory : Place} {name : Name} (hname : Path.IsName name)
    (hsize : Text.byteSize name ≤ maxName)
    (h : tree.get? (directory ++ [name]) = some .directory) :
    tree.enter? directory name = some (directory ++ [name]) := by
  rw [enter?, if_neg hname.ne_dots, if_pos ⟨hsize, h⟩]

/-- Names lead from a directory to the directory that they lead to. -/
theorem foldlM_enter? (h : tree.Sound) {directory names : Place}
    (hget : tree.get? (directory ++ names) = some .directory) :
    names.foldlM tree.enter? directory = some (directory ++ names) := by
  induction names generalizing directory with
  | nil => simp
  | cons name names ih =>
      have hget' : tree.get? ((directory ++ [name]) ++ names) = some .directory := by
        simpa using hget
      have hnext : tree.get? (directory ++ [name]) = some .directory := by
        by_cases hnames : names = []
        · simpa [hnames] using hget'
        · exact h.directory_of_below hnames hget'
      have hname := h.isName hnext (List.mem_append_right directory (.head _))
      rw [List.foldlM_cons, enter?_name hname.1 hname.2 hnext]
      show names.foldlM tree.enter? (directory ++ [name]) = _
      rw [ih hget', List.append_assoc, List.singleton_append]

/-- One step from a directory leads to a directory. -/
private theorem Sound.directory_of_enter? (h : tree.Sound) {directory target : Place} {step : Text}
    (hget : tree.get? directory = some .directory) (henter : tree.enter? directory step = some target) :
    tree.get? target = some .directory := by
  unfold enter? at henter
  split at henter
  · cases henter
    by_cases hroot : directory = []
    · rw [hroot]
      rfl
    · exact h.parents directory (mem_places_of_get? hroot hget)
  · split at henter
    · next hnext =>
      cases henter
      exact hnext.2
    · cases henter

/-- The place that a path leads to without links is a directory. -/
theorem Sound.directory_of_directoryAt? (h : tree.Sound) {path : Text} {directory : Place}
    (hat : tree.directoryAt? path = some directory) : tree.get? directory = some .directory := by
  have hsteps (steps : List Text) (start : Place) (hget : tree.get? start = some .directory)
      (hfold : steps.foldlM tree.enter? start = some directory) :
      tree.get? directory = some .directory := by
    induction steps generalizing start with
    | nil =>
        cases hfold
        exact hget
    | cons step steps ih =>
        rw [List.foldlM_cons, Option.bind_eq_bind, Option.bind_eq_some_iff] at hfold
        obtain ⟨next, henter, hrest⟩ := hfold
        exact ih next (h.directory_of_enter? hget henter) hrest
  refine hsteps _ _ ?_ hat
  unfold start
  split
  · rfl
  · exact h.at_home

/-- Following pieces that stay in directories is entering them. A call that
means to write has to have a piece left, or no slash at the end. -/
theorem follow_append {intent : Intent} {links : Nat} {directory target : Place}
    {pieces rest : List Text} {slash : Bool}
    (h : (pieces.filter (· ≠ ['.'])).foldlM tree.enter? directory = some target)
    (hrest : intent = .write → slash = true → rest ≠ []) :
    tree.follow intent links directory (pieces ++ rest) slash
      = tree.follow intent links target rest slash := by
  induction pieces generalizing directory with
  | nil =>
      obtain rfl : directory = target := by simpa using h
      rfl
  | cons piece pieces ih =>
      rw [List.cons_append]
      conv => lhs; unfold follow
      by_cases hdot : piece = ['.']
      · rw [if_pos hdot]
        exact ih (by simpa [hdot] using h)
      rw [if_neg hdot]
      rw [List.filter_cons_of_pos (by simpa using hdot), List.foldlM_cons] at h
      obtain ⟨next, hnext, h⟩ := Option.bind_eq_some_iff.1 h
      unfold enter? at hnext
      split at hnext
      · next hdots =>
        cases hnext
        rw [if_pos hdots]
        exact ih h
      · next hdots =>
        split at hnext
        · next hinto =>
          cases hnext
          -- a slash at the end counts against a call that means to write,
          -- but only at the last piece
          have hwrite : ¬ ((pieces ++ rest).isEmpty && slash && decide (intent = .write)) = true := by
            simp only [Bool.and_eq_true, List.isEmpty_iff, List.append_eq_nil_iff,
              decide_eq_true_eq]
            rintro ⟨⟨⟨-, hnil⟩, hslash⟩, hintent⟩
            exact hrest hintent hslash hnil
          rw [if_neg hdots, if_neg hwrite, if_neg (Nat.not_lt.2 hinto.1)]
          simp only [hinto.2]
          exact ih h
        · cases hnext

-- ==================================================== where paths lead

theorem refusal?_of_fits {path : Text} (hnul : '\x00' ∉ path) (hne : path ≠ [])
    (hfits : Text.byteSize path ≤ maxPath) : refusal? path = none := by
  unfold refusal?
  rw [if_neg (by simpa using hnul), if_neg (by simpa using hne), if_neg (Nat.not_lt.2 hfits)]

private theorem refusal?_of_long {path : Text} (hnul : '\x00' ∉ path)
    (hlong : maxPath < Text.byteSize path) : refusal? path = some .nameTooLong := by
  have hne : path ≠ [] := by
    rintro rfl
    exact absurd hlong (Nat.not_lt_zero _)
  unfold refusal?
  rw [if_neg (by simpa using hnul), if_neg (by simpa using hne), if_pos hlong]

/-- A path that leads anywhere was not refused. -/
theorem accepts_of_locate {path : Text} {intent : Intent} {target : Target}
    (h : tree.locate intent path = .ok target) :
    '\x00' ∉ path ∧ path ≠ [] ∧ Text.byteSize path ≤ maxPath := by
  have hnone : refusal? path = none := by
    cases hrefusal : refusal? path with
    | none => rfl
    | some fault => simp [locate, hrefusal] at h
  unfold refusal? at hnone
  split at hnone
  · cases hnone
  · split at hnone
    · cases hnone
    · next hnul hne => exact ⟨by simpa using hnul, by simpa using hne, by simpa using hnone⟩

theorem locate_of_lookAt {path : Text} {intent : Intent} {node : Node}
    (h : tree.lookAt intent path = .ok node) :
    ∃ place, tree.locate intent path = .ok (.node place node) := by
  unfold lookAt at h
  split at h
  · cases h
  · cases h
  · next place found hlocate =>
    cases h
    exact ⟨place, hlocate⟩

theorem start_congr {path other : Text} (h : Path.isAbsolute other = Path.isAbsolute path) :
    tree.start other = tree.start path := by
  rw [start, start, h]

/-- Where a path starts is a matter of the working directory alone. -/
theorem start_of_home {tree' : FileTree} (h : tree'.home = tree.home) (path : Text) :
    tree'.start path = tree.start path := by
  rw [start, start, h]

/-- Paths with the same start and the same steps lead to the same directory. -/
theorem directoryAt?_congr {path other : Text} (hsteps : Path.stepsOf other = Path.stepsOf path)
    (habs : Path.isAbsolute other = Path.isAbsolute path) :
    tree.directoryAt? other = tree.directoryAt? path := by
  rw [directoryAt?, directoryAt?, hsteps, start_congr habs]

/-- A path that stays in directories leads to the last of them. -/
theorem follow_of_directoryAt? {path : Text} {directory : Place} {links : Nat} {slash : Bool}
    (h : tree.directoryAt? path = some directory) :
    tree.follow .target links (tree.start path) (Path.pieces path) slash
      = .ok (.node directory .directory) := by
  have hfollow : tree.follow .target links (tree.start path) (Path.pieces path ++ []) slash
      = tree.follow .target links directory [] slash := follow_append h (by simp)
  rw [List.append_nil] at hfollow
  rw [hfollow, follow]

/-- A path that leads to a directory without links leads there for the
calls. -/
theorem locate_directory {path : Text} {directory : Place}
    (h : tree.directoryAt? path = some directory) (hnul : '\x00' ∉ path) (hne : path ≠ [])
    (hfits : Text.byteSize path ≤ maxPath) :
    tree.locate .target path = .ok (.node directory .directory) := by
  rw [locate, refusal?_of_fits hnul hne hfits]
  exact follow_of_directoryAt? h

/-- A path that is too long leads nowhere, whatever is wanted there. -/
theorem locate_of_long {path : Text} {intent : Intent} (hnul : '\x00' ∉ path)
    (hlong : maxPath < Text.byteSize path) : tree.locate intent path = .error .nameTooLong := by
  rw [locate, refusal?_of_long hnul hlong]

/-- The other way round, pieces that lead to a directory stay in
directories, if there are no links. -/
theorem foldlM_enter?_of_follow (hlink : ∀ place target, tree.get? place ≠ some (.link target))
    {links : Nat} {pieces : List Text} {start directory : Place} {slash : Bool}
    (h : tree.follow .target links start pieces slash = .ok (.node directory .directory)) :
    (pieces.filter (· ≠ ['.'])).foldlM tree.enter? start = some directory := by
  induction pieces generalizing start with
  | nil =>
      rw [follow] at h
      cases h
      rfl
  | cons piece pieces ih =>
      unfold follow at h
      by_cases hdot : piece = ['.']
      · rw [if_pos hdot] at h
        rw [List.filter_cons_of_neg (by simpa using hdot)]
        exact ih h
      rw [if_neg hdot] at h
      rw [List.filter_cons_of_pos (by simpa using hdot), List.foldlM_cons, enter?]
      by_cases hdots : piece = ['.', '.']
      · rw [if_pos hdots] at h ⊢
        exact ih h
      rw [if_neg hdots, if_neg (by simp)] at h
      rw [if_neg hdots]
      by_cases hsize : maxName < Text.byteSize piece
      · rw [if_pos hsize] at h
        cases h
      rw [if_neg hsize] at h
      -- only a directory goes on to a directory
      cases hnode : tree.get? (start ++ [piece]) with
      | none =>
          simp only [hnode] at h
          split at h <;> cases h
      | some node =>
          cases node with
          | file content mode =>
              simp only [hnode] at h
              split at h <;> cases h
          | directory =>
              simp only [hnode] at h
              rw [if_pos ⟨Nat.not_lt.1 hsize, rfl⟩]
              exact ih h
          | link target => exact absurd hnode (hlink _ target)

/-- In a tree without links, each path that leads to a directory does so by
its steps. -/
theorem directoryAt?_of_locate (hlink : ∀ place target, tree.get? place ≠ some (.link target))
    {path : Text} {directory : Place}
    (h : tree.locate .target path = .ok (.node directory .directory)) :
    tree.directoryAt? path = some directory := by
  rw [locate] at h
  split at h
  · cases h
  · exact foldlM_enter?_of_follow hlink h

/-- What a name leads to in a directory. -/
def targetIn (tree : FileTree) (directory : Place) (name : Name) : Target :=
  match tree.get? (directory ++ [name]) with
  | none => .vacant directory name
  | some node => .node (directory ++ [name]) node

theorem targetIn_of_none {directory : Place} {name : Name}
    (h : tree.get? (directory ++ [name]) = none) :
    tree.targetIn directory name = .vacant directory name := by
  rw [targetIn, h]

theorem targetIn_of_some {directory : Place} {name : Name} {node : Node}
    (h : tree.get? (directory ++ [name]) = some node) :
    tree.targetIn directory name = .node (directory ++ [name]) node := by
  rw [targetIn, h]

/-- A name is looked up where it is the last piece, unless it is a link
that is to be followed. -/
theorem follow_name {intent : Intent} {links : Nat} {directory : Place} {name : Name}
    (hdot : name ≠ ['.']) (hdots : name ≠ ['.', '.']) (hfits : Text.byteSize name ≤ maxName)
    (hstop : intent = .entry ∨ ∀ target, tree.get? (directory ++ [name]) ≠ some (.link target)) :
    tree.follow intent links directory [name] false = .ok (tree.targetIn directory name) := by
  unfold follow
  rw [if_neg hdot, if_neg hdots, if_neg (by simp), if_neg (Nat.not_lt.2 hfits)]
  cases hnode : tree.get? (directory ++ [name]) with
  | none =>
      simp only [hnode, targetIn_of_none hnode]
      rfl
  | some node =>
      rw [targetIn_of_some hnode]
      cases node with
      | file content mode =>
          simp only [hnode]
          rfl
      | directory =>
          simp only [hnode]
          rw [follow]
      | link target =>
          simp only [hnode]
          rcases hstop with rfl | hstop
          · rfl
          · exact absurd hnode (hstop target)

/-- What a name leads to behind a path that stays in directories. -/
theorem locate_join {base : Text} {directory : Place} {name : Name} {intent : Intent}
    (hlink : ∀ target, tree.get? (directory ++ [name]) ≠ some (.link target))
    (hbase : tree.directoryAt? base = some directory) (hname : Path.IsName name) (hnul : '\x00' ∉ base)
    (hfits : Text.byteSize (Path.join base name) ≤ maxPath) :
    tree.locate intent (Path.join base name) =
      if maxName < Text.byteSize name then .error .nameTooLong
      else .ok (tree.targetIn directory name) := by
  rw [locate, refusal?_of_fits (Path.nul_not_mem_join hname hnul) (Path.join_ne_nil hname) hfits]
  simp only
  rw [Path.pieces_join hname, Path.endsInSlash_join hname, start_congr (Path.isAbsolute_join hname),
    follow_append hbase (by simp)]
  split
  · next hlong =>
    rw [follow, if_neg hname.ne_dot, if_neg hname.ne_dots, if_neg (by simp), if_pos hlong]
  · next hshort =>
    exact follow_name hname.ne_dot hname.ne_dots (Nat.not_lt.1 hshort) (.inr hlink)

-- ==================================================== the same outlines

/-- A target without its content. -/
def Target.outline : Target → Target
  | .node place found => .node place found.outline
  | .vacant directory name => .vacant directory name

/-- Where pieces lead is a matter of the outline. -/
theorem follow_outline {tree tree' : FileTree}
    (h : ∀ place, (tree'.get? place).map Node.outline = (tree.get? place).map Node.outline)
    (intent : Intent) (links : Nat) (directory : Place) (pieces : List Text) (slash : Bool) :
    (tree'.follow intent links directory pieces slash).map Target.outline
      = (tree.follow intent links directory pieces slash).map Target.outline := by
  have hnone (place : Place) := (Node.of_outline (h place)).1
  have hdirectory (place : Place) := (Node.of_outline (h place)).2.1
  have hlink (place : Place) := (Node.of_outline (h place)).2.2.1
  have hfile (place : Place) := (Node.of_outline (h place)).2.2.2
  fun_induction FileTree.follow tree intent links directory pieces slash with
  | case1 => rw [follow]
  | case2 links directory slash rest ih =>
      conv => lhs; unfold follow
      rw [if_pos rfl, ih]
  | case3 links directory slash rest hdot ih =>
      conv => lhs; unfold follow
      rw [if_neg hdot, if_pos rfl, ih]
  | case4 links directory slash piece rest hdot hdots hwrite =>
      rw [follow, if_neg hdot, if_neg hdots, if_pos hwrite]
  | case5 links directory slash piece rest hdot hdots hwrite hlong =>
      rw [follow, if_neg hdot, if_neg hdots, if_neg hwrite, if_pos hlong]
  | case6 links directory slash piece rest hdot hdots hwrite hlong place hget hrest =>
      rw [follow, if_neg hdot, if_neg hdots, if_neg hwrite, if_neg hlong]
      simp only [hnone (directory ++ [piece]) hget, if_pos hrest]
  | case7 links directory slash piece rest hdot hdots hwrite hlong place hget hrest =>
      rw [follow, if_neg hdot, if_neg hdots, if_neg hwrite, if_neg hlong]
      simp only [hnone (directory ++ [piece]) hget, if_neg hrest]
  | case8 links directory slash piece rest hdot hdots hwrite hlong place hget ih =>
      conv => lhs; unfold follow
      rw [if_neg hdot, if_neg hdots, if_neg hwrite, if_neg hlong]
      simp only [hdirectory (directory ++ [piece]) hget]
      exact ih
  | case9 links directory slash piece rest hdot hdots hwrite hlong place content mode hget hrest =>
      obtain ⟨other, hother⟩ := hfile (directory ++ [piece]) content mode hget
      rw [follow, if_neg hdot, if_neg hdots, if_neg hwrite, if_neg hlong]
      simp only [hother, if_pos hrest]
      rfl
  | case10 links directory slash piece rest hdot hdots hwrite hlong place content mode hget hrest =>
      obtain ⟨other, hother⟩ := hfile (directory ++ [piece]) content mode hget
      rw [follow, if_neg hdot, if_neg hdots, if_neg hwrite, if_neg hlong]
      simp only [hother, if_neg hrest]
  | case11 links directory slash piece rest hdot hdots hwrite hlong place target hget hentry =>
      rw [follow, if_neg hdot, if_neg hdots, if_neg hwrite, if_neg hlong]
      simp only [hlink (directory ++ [piece]) target hget, if_pos hentry]
      rfl
  | case12 directory slash piece rest hdot hdots hwrite hlong place target hget hentry =>
      rw [follow, if_neg hdot, if_neg hdots, if_neg hwrite, if_neg hlong]
      simp only [hlink (directory ++ [piece]) target hget, if_neg hentry]
  | case13 directory slash piece rest hdot hdots hwrite hlong place target hget hentry links ih =>
      conv => lhs; unfold follow
      rw [if_neg hdot, if_neg hdots, if_neg hwrite, if_neg hlong]
      simp only [hlink (directory ++ [piece]) target hget, if_neg hentry]
      exact ih

/-- Where a path leads is a matter of the outline. -/
theorem locate_outline {tree tree' : FileTree} (hhome : tree'.home = tree.home)
    (h : ∀ place, (tree'.get? place).map Node.outline = (tree.get? place).map Node.outline)
    (intent : Intent) (path : Text) :
    (tree'.locate intent path).map Target.outline
      = (tree.locate intent path).map Target.outline := by
  unfold locate start
  rw [hhome]
  split
  · rfl
  · exact follow_outline h intent _ _ _ _

end TaggedSource.FileTree

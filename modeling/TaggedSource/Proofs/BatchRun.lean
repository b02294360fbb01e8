/-
What a batch run comes to.

A tour (see `Walk`) finds each of its entries as it was, since no two of
them stand in one place, so it comes to the fates of its entries, one
after the other (`tour_run`). A run is a tour along what is below its root
(`run_run`): its result counts the fates, and its state is the tree in
which they are fulfilled (`treeBehind`), with the word source as the last
of them has left it (`sourceBehind`). What stands where in that tree is
said by `get?_treeBehind` and `get?_treeBehind_of_ne`.
-/
import TaggedSource.Proofs.Walk

namespace TaggedSource

-- ========================================================= what is counted

namespace Fate

/-- The entry went through the pass. -/
def isProcessed : Fate → Bool
  | .kept | .rewritten _ => true
  | _ => false

/-- The entry changed. -/
def isChanged : Fate → Bool
  | .rewritten _ => true
  | _ => false

/-- The entry could not be processed. -/
def isFailed : Fate → Bool
  | .unread | .unwritten => true
  | _ => false

/-- The counts of some fates. -/
def tally (fates : List Fate) : Tally where
  processed := fates.countP isProcessed
  changed := fates.countP isChanged
  failed := fates.countP isFailed

/-- Counting goes on from any counts as it does from none. -/
private theorem foldl_count (fates : List Fate) (start : Tally) :
    fates.foldl count start =
      ⟨start.processed + (tally fates).processed, start.changed + (tally fates).changed,
        start.failed + (tally fates).failed⟩ := by
  induction fates generalizing start with
  | nil => rfl
  | cons fate fates ih =>
      rw [List.foldl_cons, ih]
      cases fate <;>
        simp [tally, count, Tally.count, Tally.countFailure, isProcessed, isChanged, isFailed,
          List.countP_cons] <;>
        omega

-- ====================================================== what is fulfilled

section
variable (fate : Fate) {place : Place} {node : Node} {tree : FileTree}

/-- What happens to an entry shows at its own place only. -/
theorem get?_fulfil_of_ne (dryRun : Bool) (hplace : place ≠ []) {other : Place}
    (h : other ≠ place) : (fate.fulfil dryRun place node tree).get? other = tree.get? other := by
  cases fate with
  | rewritten new =>
      cases dryRun with
      | true => rfl
      | false =>
          show (tree.put place _).get? other = tree.get? other
          rw [FileTree.get?_put tree hplace, if_neg h]
  | _ => rfl

theorem get?_fulfil_congr (dryRun : Bool) (hplace : place ≠ []) {tree' : FileTree} {other : Place}
    (h : tree'.get? other = tree.get? other) :
    (fate.fulfil dryRun place node tree').get? other
      = (fate.fulfil dryRun place node tree).get? other := by
  cases fate with
  | rewritten new =>
      cases dryRun with
      | true => exact h
      | false =>
          show (tree'.put place _).get? other = (tree.put place _).get? other
          rw [FileTree.get?_put tree' hplace, FileTree.get?_put tree hplace, h]
  | _ => exact h

/-- In a run the entry is what its fate makes of it. -/
private theorem get?_fulfil_self (hplace : place ≠ []) (hget : tree.get? place = some node) :
    (fate.fulfil false place node tree).get? place = some (fate.nodeAfter node) := by
  cases fate with
  | rewritten new =>
      show (tree.put place _).get? place = _
      rw [FileTree.get?_put tree hplace, if_pos rfl]
  | _ => exact hget

end

end Fate

namespace Batch

variable (batch : Batch)

-- ==================================================== the course of a tour

/-- The word source behind some entries. -/
def sourceBehind (source : WordSource) (entries : List (Place × Node)) : WordSource :=
  entries.foldl (fun source entry => batch.sourceAfter source entry.1 entry.2) source

/-- What becomes of some entries, one after the other. -/
def fates (dryRun : Bool) : WordSource → List (Place × Node) → List Fate
  | _, [] => []
  | source, (names, node) :: entries =>
    batch.fateOf dryRun source names node ::
      fates dryRun (batch.sourceAfter source names node) entries

/-- The tree in which the fates of some entries are fulfilled. -/
def treeBehind (dryRun : Bool) (top : Place) :
    WordSource → List (Place × Node) → FileTree → FileTree
  | _, [], tree => tree
  | source, (names, node) :: entries, tree =>
    treeBehind dryRun top (batch.sourceAfter source names node) entries
      ((batch.fateOf dryRun source names node).fulfil dryRun (top ++ names) node tree)

/-- How a tour ends that would come to a tally. -/
def verdict (blocks : Place × Node → Bool) (entries : List (Place × Node)) (tally : Tally) :
    Except Failure Tally :=
  match entries.find? blocks with
  | some entry => .error (.walk (batch.pathTo entry.1) .nameTooLong)
  | none => .ok tally

variable {batch}

/-- A directory is left alone. -/
theorem fateOf_directory (dryRun : Bool) (source : WordSource) (names place : Place)
    (tree : FileTree) :
    (batch.fateOf dryRun source names .directory).fulfil dryRun place .directory tree = tree ∧
      batch.sourceAfter source names .directory = source := by
  unfold fateOf sourceAfter
  cases batch.takesUp names .directory <;> exact ⟨rfl, rfl⟩

/-- Behind the first of some entries the others are where they were, since
they are elsewhere. -/
theorem Grounded.behind_first {top names : Place} {node : Node} {tree : FileTree}
    (hground : batch.Grounded top tree) {entries : List (Place × Node)}
    (hentries : ∀ entry ∈ (names, node) :: entries,
      entry.1 ≠ [] ∧ tree.get? (top ++ entry.1) = some entry.2)
    (hdistinct : ((names, node) :: entries).Pairwise fun a b => a.1 ≠ b.1) (dryRun : Bool)
    (source : WordSource) :
    let tree' := (batch.fateOf dryRun source names node).fulfil dryRun (top ++ names) node tree
    batch.Grounded top tree' ∧
      ∀ entry ∈ entries, entry.1 ≠ [] ∧ tree'.get? (top ++ entry.1) = some entry.2 := by
  intro tree'
  obtain ⟨hnames, hget⟩ := hentries (names, node) (.head _)
  obtain ⟨hfirst, -⟩ := List.pairwise_cons.1 hdistinct
  have hplace : top ++ names ≠ [] := by simp [hnames]
  refine ⟨hground.of_outline (outline_fulfil hplace hget), fun entry hmem => ?_⟩
  obtain ⟨hne, hentry⟩ := hentries entry (.tail _ hmem)
  refine ⟨hne, ?_⟩
  rw [Fate.get?_fulfil_of_ne _ dryRun hplace, hentry]
  simpa using (hfirst entry hmem).symm

/-- A tour comes to the fates of its entries, up to the one that it cannot
get past. -/
theorem Grounded.tour_run {top : Place} {tree : FileTree} (hground : batch.Grounded top tree)
    {entries : List (Place × Node)}
    (hentries : ∀ entry ∈ entries, entry.1 ≠ [] ∧ tree.get? (top ++ entry.1) = some entry.2)
    (hdistinct : entries.Pairwise fun a b => a.1 ≠ b.1) (dryRun : Bool)
    {blocks : Place × Node → Bool} (hblocks : ∀ entry, blocks entry = true → entry.2 = .directory)
    (source : WordSource) (tally : Tally) :
    let met := entries.takeWhile fun entry => !blocks entry
    let o := (batch.tour dryRun blocks entries tally).run ⟨tree, source⟩
    o.result = batch.verdict blocks entries ((batch.fates dryRun source met).foldl Fate.count tally) ∧
    o.state = ⟨batch.treeBehind dryRun top source met tree, batch.sourceBehind source met⟩ := by
  induction entries generalizing tree source tally with
  | nil => exact ⟨rfl, rfl⟩
  | cons entry entries ih =>
      obtain ⟨names, node⟩ := entry
      obtain ⟨hnames, hget⟩ := hentries (names, node) (.head _)
      obtain ⟨hground', hentries'⟩ := hground.behind_first hentries hdistinct dryRun source
      obtain ⟨events, hvisit⟩ := hground.visit_run hnames hget dryRun source tally
      simp only [tour_cons hvisit, verdict, List.find?_cons, List.takeWhile_cons]
      cases hblock : blocks (names, node) with
      | true =>
          obtain rfl : node = .directory := hblocks _ hblock
          obtain ⟨htree, hsource⟩ := fateOf_directory dryRun source names (top ++ names) tree
          rw [htree, hsource]
          exact ⟨rfl, rfl⟩
      | false =>
          exact ih hground' hentries' hdistinct.of_cons (batch.sourceAfter source names node)
            ((batch.fateOf dryRun source names node).count tally)

-- ======================================================= place by place

/-- Places that were not visited are as they were. -/
theorem get?_treeBehind_of_ne (dryRun : Bool) {top place : Place} {entries : List (Place × Node)}
    (hnames : ∀ entry ∈ entries, entry.1 ≠ []) (h : ∀ entry ∈ entries, place ≠ top ++ entry.1)
    (source : WordSource) (tree : FileTree) :
    (batch.treeBehind dryRun top source entries tree).get? place = tree.get? place := by
  induction entries generalizing source tree with
  | nil => rfl
  | cons entry entries ih =>
      obtain ⟨names, node⟩ := entry
      have hne : names ≠ [] := hnames (names, node) (.head _)
      rw [treeBehind, ih (fun e he => hnames e (.tail _ he)) (fun e he => h e (.tail _ he)),
        Fate.get?_fulfil_of_ne _ dryRun (by simp [hne]) (h (names, node) (.head _))]

/-- Each entry comes to the fate that it has behind those before it. -/
theorem get?_treeBehind {top names : Place} {node : Node} {before after : List (Place × Node)}
    (hnames : ∀ entry ∈ before ++ (names, node) :: after, entry.1 ≠ [])
    (hdistinct : (before ++ (names, node) :: after).Pairwise fun a b => a.1 ≠ b.1)
    {tree : FileTree} (hget : tree.get? (top ++ names) = some node) (source : WordSource) :
    (batch.treeBehind false top source (before ++ (names, node) :: after) tree).get? (top ++ names)
      = some ((batch.fateOf false (batch.sourceBehind source before) names node).nodeAfter node) := by
  induction before generalizing source tree with
  | nil =>
      obtain ⟨hfirst, -⟩ := List.pairwise_cons.1 hdistinct
      have hne : names ≠ [] := hnames (names, node) (.head _)
      rw [List.nil_append, treeBehind,
        get?_treeBehind_of_ne false (fun e he => hnames e (.tail _ he))
          (fun e he => by simpa using hfirst e he)]
      exact Fate.get?_fulfil_self _ (by simp [hne]) hget
  | cons entry before ih =>
      obtain ⟨names', node'⟩ := entry
      obtain ⟨hfirst, hrest⟩ := List.pairwise_cons.1 hdistinct
      have hne : names' ≠ [] := hnames (names', node') (.head _)
      have hother : names' ≠ names := hfirst (names, node) (by simp)
      refine ih (fun e he => hnames e (.tail _ he)) hrest ?_ _
      rw [Fate.get?_fulfil_of_ne _ false (by simp [hne]) (by simpa using hother.symm), hget]

/-- What stands behind a run in the place of a selected file with a text. -/
theorem nodeAfter_of_text {names : Place} {content : Bytes} {mode : Nat} {old new : Text}
    {source : WordSource} (hselects : batch.selects names = true)
    (hreaches : batch.reaches names = true) (hdecode : Utf8.decode content = .ok old)
    (hresult : ((batch.pass.run batch.profile old).run source).result = .ok new) :
    (batch.fateOf false source names (.file content mode)).nodeAfter (.file content mode)
      = .file (if batch.canWrite names then Utf8.encode new else content) mode := by
  have htakes : batch.takesUp names (.file content mode) = true := by
    simp [takesUp, hselects, Node.isDirectory]
  have htext : batch.textOf? names (.file content mode) = some old :=
    textOf?_eq_some.2 ⟨content, mode, rfl, hreaches, hdecode⟩
  simp only [fateOf, htakes, htext, hresult, if_true, Bool.false_or]
  by_cases hsame : new = old
  · -- an unchanged text is not written, and would be the same content
    have hcontent : Utf8.encode new = content := hsame ▸ Utf8.encode_of_decode hdecode
    rw [if_pos hsame, hcontent, ite_self]
    rfl
  · rw [if_neg hsame]
    cases batch.canWrite names <;> rfl

/-- An entry is left alone if it is not selected or has no text. -/
theorem nodeAfter_of_no_text {names : Place} {node : Node} {source : WordSource}
    (h : batch.selects names = true → batch.textOf? names node = none) :
    (batch.fateOf false source names node).nodeAfter node = node := by
  unfold fateOf
  split
  · next htakes =>
    rw [takesUp, Bool.and_eq_true] at htakes
    rw [h htakes.1]
    rfl
  · rfl

-- ================================================================ the run

variable (batch) in
/-- Whether a run cannot get past an entry. -/
def blocks (recursive : Bool) (entry : Place × Node) : Bool :=
  recursive && entry.2.isDirectory && !batch.reaches entry.1

variable (batch) in
/-- What a run gets to, in order. -/
def met (tree : FileTree) (top : Place) (recursive : Bool) : List (Place × Node) :=
  (tree.below top recursive).takeWhile fun entry => !batch.blocks recursive entry

theorem get?_of_mem_below {tree : FileTree} (hsound : tree.Sound) {top : Place} {recursive : Bool}
    {entry : Place × Node} (hmem : entry ∈ tree.below top recursive) :
    entry.1 ≠ [] ∧ tree.get? (top ++ entry.1) = some entry.2 := by
  have hbelow : (entry.1, entry.2) ∈ tree.below top recursive := hmem
  obtain ⟨hne, -, hget⟩ := (FileTree.mem_below hsound).1 hbelow
  exact ⟨hne, hget⟩

theorem get?_of_mem_met {tree : FileTree} (hsound : tree.Sound) {top : Place} {recursive : Bool}
    {entry : Place × Node} (hmem : entry ∈ batch.met tree top recursive) :
    entry.1 ≠ [] ∧ tree.get? (top ++ entry.1) = some entry.2 :=
  get?_of_mem_below hsound ((List.takeWhile_sublist _).subset hmem)

/-- A run meets no entry twice. -/
theorem pairwise_met {tree : FileTree} (hsound : tree.Sound) (top : Place) (recursive : Bool) :
    (batch.met tree top recursive).Pairwise fun a b => a.1 ≠ b.1 :=
  (List.pairwise_map.1 (FileTree.nodup_below hsound top recursive)).sublist
    (List.takeWhile_sublist _)

/-- What a run gets to comes to its fate, with the words that are then to
come. -/
theorem exists_get?_treeBehind {tree : FileTree} (hsound : tree.Sound) {top : Place}
    {recursive : Bool} {names : Place} {node : Node}
    (hmem : (names, node) ∈ batch.met tree top recursive) (source : WordSource) :
    ∃ source',
      (batch.treeBehind false top source (batch.met tree top recursive) tree).get? (top ++ names)
        = some ((batch.fateOf false source' names node).nodeAfter node) := by
  have hentries (entry : Place × Node) (hmem : entry ∈ batch.met tree top recursive) :=
    get?_of_mem_met hsound hmem
  have hdistinct : (batch.met tree top recursive).Pairwise fun a b => a.1 ≠ b.1 :=
    pairwise_met hsound top recursive
  obtain ⟨-, hget⟩ := hentries _ hmem
  obtain ⟨before, after, hsplit⟩ := List.append_of_mem hmem
  rw [hsplit] at hdistinct hentries
  refine ⟨batch.sourceBehind source before, ?_⟩
  rw [hsplit, get?_treeBehind (fun entry hmem => (hentries entry hmem).1) hdistinct hget]

/-- A run leaves alone what is no selected entry with a text. -/
theorem get?_treeBehind_of_no_text {tree : FileTree} (hsound : tree.Sound) {top : Place}
    {recursive : Bool} {place : Place}
    (h : ∀ names node, (names, node) ∈ batch.met tree top recursive → place = top ++ names →
      batch.selects names = true → batch.textOf? names node = none) (source : WordSource) :
    (batch.treeBehind false top source (batch.met tree top recursive) tree).get? place
      = tree.get? place := by
  by_cases hmet : ∃ entry ∈ batch.met tree top recursive, place = top ++ entry.1
  · obtain ⟨⟨names, node⟩, hmem, rfl⟩ := hmet
    obtain ⟨-, hget⟩ := get?_of_mem_met hsound hmem
    obtain ⟨source', hbehind⟩ := exists_get?_treeBehind hsound hmem source
    rw [hbehind, nodeAfter_of_no_text (h names node hmem rfl), hget]
  · exact get?_treeBehind_of_ne false (fun entry hmem => (get?_of_mem_met hsound hmem).1)
      (fun entry hmem hat => hmet ⟨entry, hmem, hat⟩) source tree

/-- A clear tree is one that a batch can run in, from any directory. -/
theorem Grounded.of_locate {top : Place} {tree : FileTree} (hsound : tree.Sound)
    (hclear : tree.Clear) (h : tree.locate .target batch.root = .ok (.node top .directory)) :
    batch.Grounded top tree := by
  obtain ⟨hnul, hne, -⟩ := FileTree.accepts_of_locate h
  exact ⟨hsound, hclear, hne, hnul, FileTree.directoryAt?_of_locate hclear.no_link h⟩

/-- The levels of a walk go as deep as the tree. -/
private theorem blocksWalk_levels {tree : FileTree} (hsound : tree.Sound) {top : Place}
    {recursive : Bool}
    {entry : Place × Node} (hmem : entry ∈ tree.below top recursive) :
    batch.blocksWalk (tree.levels recursive) entry = batch.blocks recursive entry := by
  obtain ⟨names, node⟩ := entry
  obtain ⟨hne, -, hget⟩ := (FileTree.mem_below hsound).1 hmem
  unfold blocksWalk blocks FileTree.levels
  cases recursive with
  | true =>
      have hheight := FileTree.length_le_height (FileTree.mem_places_of_get? (by simp [hne]) hget)
      rw [List.length_append] at hheight
      have hlevels : names.length < tree.height + 1 := by omega
      simp [hlevels]
  | false => simp [hne]

/-- A batch for a project has its profile, and is otherwise as asked for. -/
theorem exists_of_forProject {catalogue : Catalogue} {project : Text} {pass : Pass} {root : Text}
    {ignored : IgnoreList} {batch : Batch}
    (h : forProject catalogue project pass root ignored = .ok batch) :
    ∃ profile, catalogue.get project = .ok profile ∧
      batch = { profile, pass, root, ignored } := by
  unfold forProject at h
  cases hget : catalogue.get project with
  | error cause =>
      rw [hget] at h
      cases h
  | ok profile =>
      rw [hget] at h
      cases h
      exact ⟨profile, rfl, rfl⟩

/-- A run whose root is a directory is the walk. -/
theorem run_of_directory {tree : FileTree} (hlook : tree.lookAt .target batch.root = .ok .directory)
    (recursive dryRun : Bool) (source : WordSource) :
    let o := (batch.run ⟨recursive, dryRun⟩).run ⟨tree, source⟩
    let walked := (batch.walk dryRun (tree.levels recursive) batch.root {}).run ⟨tree, source⟩
    o.result = walked.result ∧ o.state = walked.state := by
  rw [run, Action.run_bind, Action.run_get, Action.goOn_ok, Action.run_bind]
  simp only [hlook, Except.mapError, Action.run_ofExcept, Action.goOn_ok, Node.isDirectory, if_true,
    Action.run_bind, FileTree.levels]
  generalize (batch.walk dryRun _ batch.root {}).run ⟨tree, source⟩ = walked
  obtain ⟨result, events, w⟩ := walked
  cases result with
  | error cause => exact ⟨rfl, rfl⟩
  | ok tally => exact ⟨rfl, rfl⟩

/-- A run whose root is anything else does nothing. -/
theorem run_of_not_directory {tree : FileTree}
    (hlook : tree.lookAt .target batch.root ≠ .ok .directory) (recursive dryRun : Bool)
    (source : WordSource) :
    let o := (batch.run ⟨recursive, dryRun⟩).run ⟨tree, source⟩
    o.result = ((tree.lookAt .target batch.root).mapError (.walk batch.root)).map (fun _ => {}) ∧
      o.state = ⟨tree, source⟩ := by
  rw [run, Action.run_bind, Action.run_get, Action.goOn_ok, Action.run_bind]
  cases hnode : tree.lookAt .target batch.root with
  | error fault => exact ⟨rfl, rfl⟩
  | ok node =>
      cases node with
      | directory => exact absurd hnode hlook
      | file content mode => exact ⟨rfl, rfl⟩
      | link target => exact ⟨rfl, rfl⟩

/-- A walk from the root is a tour of all that is below. -/
theorem Grounded.walk_root {top : Place} {tree : FileTree} (hground : batch.Grounded top tree)
    (hfits : Text.byteSize batch.root ≤ FileTree.maxPath) (recursive dryRun : Bool)
    (source : WordSource) :
    (batch.walk dryRun (tree.levels recursive) batch.root {}).run ⟨tree, source⟩
      = (batch.tour dryRun (batch.blocks recursive) (tree.below top recursive) {}).run
          ⟨tree, source⟩ := by
  have hreaches : batch.reaches [] = true := decide_eq_true hfits
  have hget : tree.get? (top ++ []) = some .directory := by
    rw [List.append_nil]
    exact hground.sound.directory_of_directoryAt? hground.at_root
  have hwalk := hground.walk_run dryRun (Nat.zero_add (tree.levels recursive)) hget hreaches rfl
    source {}
  rw [FileTree.itinerary_eq_below hground.sound,
    tour_congr fun entry hmem => blocksWalk_levels hground.sound hmem] at hwalk
  exact hwalk

/-- A run comes to the fates of what is below its root. -/
theorem Grounded.run_run {top : Place} {tree : FileTree} (hground : batch.Grounded top tree)
    (hlocate : tree.locate .target batch.root = .ok (.node top .directory)) (recursive dryRun : Bool)
    (source : WordSource) :
    let met := batch.met tree top recursive
    let o := (batch.run ⟨recursive, dryRun⟩).run ⟨tree, source⟩
    o.result = batch.verdict (batch.blocks recursive) (tree.below top recursive)
      (Fate.tally (batch.fates dryRun source met)) ∧
    o.state = ⟨batch.treeBehind dryRun top source met tree, batch.sourceBehind source met⟩ ∧
    o.state.tree.outline = tree.outline := by
  intro met
  have hentries (entry : Place × Node) (hmem : entry ∈ tree.below top recursive) :=
    get?_of_mem_below hground.sound hmem
  have hblocks (entry : Place × Node) (h : batch.blocks recursive entry = true) :
      entry.2 = .directory := by
    rw [blocks, Bool.and_eq_true, Bool.and_eq_true] at h
    exact Node.isDirectory_iff.1 h.1.2
  obtain ⟨hresult, hstate⟩ := hground.tour_run hentries
    (List.pairwise_map.1 (FileTree.nodup_below hground.sound top recursive)) dryRun hblocks source {}
  have hkeeps := hground.tour_keeps hentries dryRun (batch.blocks recursive) rfl source {}
  have hlook : tree.lookAt .target batch.root = .ok .directory := by
    rw [FileTree.lookAt, hlocate]
  obtain ⟨hresult', hstate'⟩ := run_of_directory hlook recursive dryRun source
  rw [hground.walk_root (FileTree.accepts_of_locate hlocate).2.2] at hresult' hstate'
  intro o
  refine ⟨?_, hstate'.trans hstate, (congrArg (·.tree.outline) hstate').trans hkeeps⟩
  rw [Fate.foldl_count] at hresult
  simp only [Nat.zero_add] at hresult
  exact hresult'.trans hresult

end Batch

end TaggedSource

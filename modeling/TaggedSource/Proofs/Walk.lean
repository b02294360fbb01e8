/-
The walk of a batch, as a tour along an itinerary.

A walk lists a directory, visits what it listed, and lists the next one,
while the visits change the tree that it walks on. But a visit changes a
content and nothing else (`visit_keeps`), so every later listing is the one
of the tree as it was, and the walk is a visit of each entry of an
itinerary that was fixed before it began (`walk_run`).

The one thing that ends a walk early is a directory that it would have to
list and whose path is too long for the machine.
-/
import TaggedSource.Proofs.Fate
import TaggedSource.Proofs.Itinerary

namespace TaggedSource

namespace Batch

variable (batch : Batch)

-- ================================================================= a tour

/-- Visits an entry, and goes no further if it cannot get past it. -/
def stopAt (dryRun : Bool) (blocks : Place × Node → Bool) (tally : Tally)
    (entry : Place × Node) : Action Workspace Tally := do
  let tally ← batch.visit dryRun (batch.pathTo entry.1) tally
  if blocks entry then .fail (.walk (batch.pathTo entry.1) .nameTooLong) else pure tally

/-- Visits entries, one after the other. -/
def tour (dryRun : Bool) (blocks : Place × Node → Bool) (entries : List (Place × Node))
    (tally : Tally) : Action Workspace Tally :=
  entries.foldlM (batch.stopAt dryRun blocks) tally

/-- Whether a walk of some levels cannot get past an entry: it is a
directory that the walk would have to list, and its path is too long. -/
def blocksWalk (levels : Nat) (entry : Place × Node) : Bool :=
  entry.2.isDirectory && !batch.reaches entry.1 && entry.1.length < levels

variable {batch}

/-- A tour visits its first entry, and ends there if the entry blocks it. -/
theorem tour_cons {dryRun : Bool} {blocks : Place × Node → Bool} {names : Place}
    {tally tally' : Tally} {w w' : Workspace} {events : List Log.Event}
    (hvisit : (batch.visit dryRun (batch.pathTo names) tally).run w = ⟨.ok tally', events, w'⟩)
    (node : Node) (entries : List (Place × Node)) :
    (batch.tour dryRun blocks ((names, node) :: entries) tally).run w =
      if blocks (names, node) then ⟨.error (.walk (batch.pathTo names) .nameTooLong), events, w'⟩
      else Action.goOn ⟨.ok tally', events, w'⟩ (batch.tour dryRun blocks entries) := by
  rw [tour, List.foldlM_cons, stopAt, Action.run_bind, Action.run_bind, hvisit, Action.goOn_ok]
  cases blocks (names, node) with
  | true => simp
  | false => simp [tour]

private theorem tour_append (dryRun : Bool) (blocks : Place × Node → Bool)
    (entries others : List (Place × Node)) (tally : Tally) (w : Workspace) :
    (batch.tour dryRun blocks (entries ++ others) tally).run w
      = Action.goOn ((batch.tour dryRun blocks entries tally).run w)
          (batch.tour dryRun blocks others) :=
  Action.run_foldlM_append _ _ _ _ _

theorem tour_congr {blocks blocks' : Place × Node → Bool} {entries : List (Place × Node)}
    (h : ∀ entry ∈ entries, blocks entry = blocks' entry) (dryRun : Bool) (tally : Tally) :
    batch.tour dryRun blocks entries tally = batch.tour dryRun blocks' entries tally := by
  induction entries generalizing tally with
  | nil => rfl
  | cons entry entries ih =>
      have htail (tally : Tally) : entries.foldlM (batch.stopAt dryRun blocks) tally
          = entries.foldlM (batch.stopAt dryRun blocks') tally :=
        ih (fun e he => h e (.tail _ he)) tally
      simp only [tour, List.foldlM_cons, stopAt, h entry (.head _), htail]

/-- A directory is listed as it is, if its path is not too long. -/
theorem Grounded.listing {top : Place} {tree : FileTree} (hground : batch.Grounded top tree)
    {names : Place} (hget : tree.get? (top ++ names) = some .directory)
    (source : WordSource) :
    (entriesOf (batch.pathTo names)).run ⟨tree, source⟩ =
      if batch.reaches names then ⟨.ok (tree.children (top ++ names)), [], ⟨tree, source⟩⟩
      else ⟨.error (.walk (batch.pathTo names) .nameTooLong), [], ⟨tree, source⟩⟩ := by
  have hnames (name : Name) (hname : name ∈ names) : Path.IsName name :=
    (hground.isName hget hname).1
  have hnul : '\x00' ∉ batch.pathTo names := Path.nul_not_mem_pathFrom hnames hground.root_no_nul
  rw [entriesOf, Action.run_bind, Action.run_get, Action.goOn_ok, Action.run_ofExcept,
    FileTree.readDirectory]
  by_cases hreaches : batch.reaches names = true
  · have hfits : Text.byteSize (batch.pathTo names) ≤ FileTree.maxPath := by
      simpa [reaches] using hreaches
    rw [FileTree.locate_directory (hground.directoryAt?_pathTo hget) hnul
      (Path.pathFrom_ne_nil hnames hground.root_ne_nil) hfits, if_pos hreaches]
    rfl
  · have hlong : FileTree.maxPath < Text.byteSize (batch.pathTo names) := by
      simpa [reaches] using hreaches
    rw [FileTree.locate_of_long hnul hlong, if_neg hreaches]
    rfl

-- ================================================ what a visit leaves alone

/-- Only files are rewritten. -/
private theorem file_of_fateOf {dryRun : Bool} {source : WordSource} {names : Place} {node : Node}
    {new : Text} (h : batch.fateOf dryRun source names node = .rewritten new) :
    ∃ content mode, node = .file content mode := by
  unfold fateOf at h
  split at h
  · split at h
    · cases h
    · next old htext =>
      obtain ⟨content, mode, hnode, -⟩ := textOf?_eq_some.1 htext
      exact ⟨content, mode, hnode⟩
  · cases h

/-- No fate of an entry changes the outline. -/
theorem outline_fulfil {dryRun : Bool} {source : WordSource} {names place : Place} {node : Node}
    {tree : FileTree} (hplace : place ≠ []) (hget : tree.get? place = some node) :
    ((batch.fateOf dryRun source names node).fulfil dryRun place node tree).outline
      = tree.outline := by
  cases hfate : batch.fateOf dryRun source names node with
  | rewritten new =>
      obtain ⟨content, mode, rfl⟩ := file_of_fateOf hfate
      cases dryRun with
      | true => rfl
      | false => exact FileTree.outline_put hplace hget
  | _ => rfl

/-- A visit does not fail, and changes no more than a content. -/
theorem Grounded.visit_keeps {top names : Place} {tree : FileTree} {node : Node}
    (hground : batch.Grounded top tree) (hnames : names ≠ [])
    (hget : tree.get? (top ++ names) = some node) (dryRun : Bool) (source : WordSource)
    (tally : Tally) :
    ∃ tally' events tree' source', tree'.outline = tree.outline ∧
      (batch.visit dryRun (batch.pathTo names) tally).run ⟨tree, source⟩
        = ⟨.ok tally', events, ⟨tree', source'⟩⟩ := by
  obtain ⟨events, hvisit⟩ := hground.visit_run hnames hget dryRun source tally
  exact ⟨_, events, _, _, outline_fulfil (by simp [hnames]) hget, hvisit⟩

/-- The same for a tour, as far as it gets. -/
theorem Grounded.tour_keeps {top : Place} {tree tree' : FileTree}
    (hground : batch.Grounded top tree) {entries : List (Place × Node)}
    (hentries : ∀ entry ∈ entries, entry.1 ≠ [] ∧ tree.get? (top ++ entry.1) = some entry.2)
    (dryRun : Bool) (blocks : Place × Node → Bool) (htree : tree'.outline = tree.outline)
    (source : WordSource) (tally : Tally) :
    ((batch.tour dryRun blocks entries tally).run ⟨tree', source⟩).state.tree.outline
      = tree.outline := by
  induction entries generalizing tree' source tally with
  | nil => exact htree
  | cons entry entries ih =>
      obtain ⟨names, node⟩ := entry
      obtain ⟨hnames, hget⟩ := hentries (names, node) (.head _)
      obtain ⟨found, hfound⟩ := FileTree.exists_get?_of_outline htree hget
      obtain ⟨tally', events, tree'', source', houtline, hvisit⟩ :=
        (hground.of_outline htree).visit_keeps hnames hfound dryRun source tally
      rw [tour_cons hvisit]
      cases blocks (names, node) with
      | true => exact houtline.trans htree
      | false =>
          exact ih (fun e he => hentries e (.tail _ he)) (houtline.trans htree) source' tally'

-- =============================================================== the walk

/-- What a walk does about one entry of a directory. -/
def descend (batch : Batch) (dryRun : Bool) (levels : Nat) (names : Place) (tally : Tally)
    (child : Name × Bool) : Action Workspace Tally := do
  let tally ← batch.visit dryRun (batch.pathTo (names ++ [child.1])) tally
  if child.2 then batch.walk dryRun levels (batch.pathTo (names ++ [child.1])) tally
  else pure tally

/-- A walk goes by the names of the entries and by which of them are
directories. -/
private theorem walk_succ (dryRun : Bool) (levels : Nat) (names : Place) (tally : Tally) :
    batch.walk dryRun (levels + 1) (batch.pathTo names) tally = (do
      let entries ← entriesOf (batch.pathTo names)
      (entries.map fun child => (child.1, child.2.isDirectory)).foldlM
        (batch.descend dryRun levels names) tally) := by
  have hpath (name : Name) : batch.pathTo (names ++ [name]) = Path.join (batch.pathTo names) name :=
    Path.pathFrom_concat _ _ _
  rw [walk]
  congr 1
  funext entries
  rw [List.foldlM_map]
  congr 1
  funext tally child
  simp only [descend, hpath]

/-- One entry of a directory and what is below it, if a walk through it is
a tour. -/
theorem Grounded.descend_run {top : Place} {tree tree' : FileTree}
    (hground : batch.Grounded top tree) (dryRun : Bool) {levels limit : Nat} {names : Place}
    {name : Name} {node : Node} (hget : tree.get? (top ++ (names ++ [name])) = some node)
    (hlimit : (names ++ [name]).length + levels = limit)
    (hwalk : node = .directory → batch.reaches (names ++ [name]) = true →
      ∀ tree'', tree''.outline = tree.outline → ∀ source tally,
        (batch.walk dryRun levels (batch.pathTo (names ++ [name])) tally).run ⟨tree'', source⟩
          = (batch.tour dryRun (batch.blocksWalk limit)
              (tree.itinerary top levels (names ++ [name])) tally).run ⟨tree'', source⟩)
    (htree : tree'.outline = tree.outline) (source : WordSource) (tally : Tally) :
    (batch.descend dryRun levels names tally (name, node.isDirectory)).run ⟨tree', source⟩
      = (batch.tour dryRun (batch.blocksWalk limit) (tree.branch top levels names (name, node))
          tally).run ⟨tree', source⟩ := by
  obtain ⟨found, hfound⟩ := FileTree.exists_get?_of_outline htree hget
  have hground' := hground.of_outline htree
  obtain ⟨tally', events, tree'', source', houtline, hvisit⟩ :=
    hground'.visit_keeps (by simp) hfound dryRun source tally
  rw [descend, Action.run_bind, hvisit, FileTree.branch, tour_cons hvisit]
  cases node with
  | file content mode => simp [Node.isDirectory, blocksWalk, tour]
  | link target => simp [Node.isDirectory, blocksWalk, tour]
  | directory =>
      simp only [Node.isDirectory, if_true, blocksWalk]
      cases levels with
      | zero => simp [← hlimit, walk, tour, FileTree.itinerary]
      | succ levels =>
          have hshort : ¬ limit ≤ names.length + 1 := by simp at hlimit; omega
          by_cases hreaches : batch.reaches (names ++ [name]) = true
          · rw [Action.goOn_ok, hwalk rfl hreaches tree'' (houtline.trans htree) source' tally']
            simp [hreaches]
          · -- the walk would list it now, and cannot
            have hground'' := hground.of_outline (houtline.trans htree)
            have hget'' := (FileTree.directory_of_outline (houtline.trans htree)).2 hget
            rw [Action.goOn_ok, walk_succ, Action.run_bind, hground''.listing hget'',
              if_neg hreaches]
            simp [hreaches, hshort]

/-- Any part of a listing, if each of its entries is a tour. -/
theorem Grounded.part_run {top : Place} {tree : FileTree} (hground : batch.Grounded top tree)
    (dryRun : Bool) {levels : Nat} {names : Place} {blocks : Place × Node → Bool}
    {children : List (Name × Node)}
    (hchildren : ∀ child ∈ children, child ∈ tree.children (top ++ names))
    (hdescend : ∀ name node, tree.get? (top ++ (names ++ [name])) = some node →
      ∀ {tree' : FileTree}, tree'.outline = tree.outline → ∀ source tally,
        (batch.descend dryRun levels names tally (name, node.isDirectory)).run ⟨tree', source⟩
          = (batch.tour dryRun blocks (tree.branch top levels names (name, node)) tally).run
              ⟨tree', source⟩)
    {tree' : FileTree} (htree : tree'.outline = tree.outline) (source : WordSource)
    (tally : Tally) :
    ((children.map fun child => (child.1, child.2.isDirectory)).foldlM
        (batch.descend dryRun levels names) tally).run ⟨tree', source⟩
      = (batch.tour dryRun blocks (children.flatMap (tree.branch top levels names)) tally).run
          ⟨tree', source⟩ := by
  induction children generalizing tree' source tally with
  | nil => rfl
  | cons child children ih =>
      obtain ⟨name, node⟩ := child
      have hchild := hchildren (name, node) (.head _)
      have hget := (FileTree.mem_children hground.sound).1 hchild
      rw [List.append_assoc] at hget
      rw [List.map_cons, List.foldlM_cons, Action.run_bind, List.flatMap_cons, tour_append,
        hdescend name node hget htree]
      -- both go on from here, in a tree with the same outline
      have hentries (entry : Place × Node) (hmem : entry ∈ tree.branch top levels names (name, node)) :=
        FileTree.get?_of_mem_branch hground.sound hchild hmem
      have hkeeps := hground.tour_keeps hentries dryRun blocks htree source tally
      generalize (batch.tour dryRun blocks _ tally).run _ = first at hkeeps ⊢
      obtain ⟨result, events, w⟩ := first
      cases result with
      | error cause => rfl
      | ok tally' =>
          rw [Action.goOn_ok, Action.goOn_ok, ih (fun c hc => hchildren c (.tail _ hc)) hkeeps
            w.source tally']

/-- A walk is a tour along its itinerary, fixed before the walk began. -/
theorem Grounded.walk_run {top : Place} {tree : FileTree} (hground : batch.Grounded top tree)
    (dryRun : Bool) {levels limit : Nat} {names : Place} (hlimit : names.length + levels = limit)
    (hget : tree.get? (top ++ names) = some .directory) (hreaches : batch.reaches names = true)
    {tree' : FileTree} (htree : tree'.outline = tree.outline) (source : WordSource)
    (tally : Tally) :
    (batch.walk dryRun levels (batch.pathTo names) tally).run ⟨tree', source⟩
      = (batch.tour dryRun (batch.blocksWalk limit) (tree.itinerary top levels names) tally).run
          ⟨tree', source⟩ := by
  induction levels generalizing names tree' source tally with
  | zero => rfl
  | succ levels ih =>
      -- the listing as it is now is the one of the tree as it was
      have hget' := (FileTree.directory_of_outline htree).2 hget
      rw [walk_succ, Action.run_bind, (hground.of_outline htree).listing hget', if_pos hreaches,
        Action.goOn_ok, FileTree.children_of_outline htree, List.nil_append]
      refine hground.part_run dryRun (fun _ hchild => hchild) (fun name node hchild => ?_) htree
        source tally
      refine hground.descend_run dryRun hchild (by simp; omega) ?_
      rintro rfl hreaches tree' htree source tally
      exact ih (by simp; omega) hchild hreaches htree source tally

end Batch

end TaggedSource

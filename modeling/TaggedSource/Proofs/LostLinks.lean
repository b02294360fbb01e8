/-
The links that a run loses, on any tree.

A run ends early only at a directory that cannot be listed, and it makes no
directory and removes none. So what it could list at first and cannot list
later, it has lost the way to, and a way is lost where a link on it is lost.

# Which links go

Overwriting a path takes two entries away at most: what stands under the name
of the temporary file, whoever made it, and the path's own entry, which what
was written takes the place of (`Wear`). The first goes even if overwriting
fails, for whatever cannot be written to is removed all the same. The second
is never on a way that is needed: it was read as a file just before, so no
path goes on behind it.

# The one way to lose one's way

A link that has the name of a temporary file is never made, because no pass
takes a file of that name. So a route that a run comes by stays whole until
such a link on it is lost, and then stays broken (`Breaks`). On a machine's
tree the directories below the root are all reached behind the route of the
root, so a run that ends early has come to a path that is too long, or the
path of the root itself has lost such a link (`halt_of_sound`).
-/
import TaggedSource.Proofs.Journey
import TaggedSource.Proofs.ReadBack

namespace TaggedSource

namespace FileTree

variable {tree now next : FileTree}

-- =========================================================== directories

/-- A tree that has the directories of another one, and no others. -/
structure HasDirectoriesOf (now tree : FileTree) : Prop where
  /-- Paths start where they started. -/
  home : now.home = tree.home
  /-- Every directory is still there. -/
  get? : ∀ place, tree.get? place = some .directory → now.get? place = some .directory
  /-- No directory is new. -/
  mem : ∀ entry ∈ now.entries, entry.2 = .directory → entry ∈ tree.entries

theorem HasDirectoriesOf.refl (tree : FileTree) : tree.HasDirectoriesOf tree :=
  ⟨rfl, fun _ h => h, fun _ h _ => h⟩

theorem HasDirectoriesOf.trans (h : next.HasDirectoriesOf now) (h' : now.HasDirectoriesOf tree) :
    next.HasDirectoriesOf tree :=
  ⟨h.home.trans h'.home, fun place hget => h.get? place (h'.get? place hget),
    fun entry hmem hnode => h'.mem entry (h.mem entry hmem hnode) hnode⟩

private theorem mem_putIn {place : Place} {node : Node} {entry : Place × Node}
    {entries : List (Place × Node)} (h : entry ∈ putIn place node entries) :
    entry = (place, node) ∨ entry ∈ entries := by
  induction entries with
  | nil => exact .inl (List.mem_singleton.1 h)
  | cons first entries ih =>
      rw [putIn] at h
      split at h
      · rcases List.mem_cons.1 h with h | h
        · exact .inl h
        · exact .inr (.tail _ h)
      · rcases List.mem_cons.1 h with rfl | h
        · exact .inr (.head _)
        · exact (ih h).imp_right (.tail _)

section
variable {place : Place} (hplace : place ≠ []) (hold : tree.get? place ≠ some .directory)
include hplace hold

/-- A node that is put where no directory stands, and is none, leaves the
directories as they are. -/
theorem hasDirectoriesOf_put {node : Node} (hnode : node ≠ .directory) :
    (tree.put place node).HasDirectoriesOf tree := by
  refine ⟨rfl, fun other hget => ?_, fun entry hmem hentry => ?_⟩
  · have hne : other ≠ place := by
      rintro rfl
      exact hold hget
    rw [get?_put tree hplace, if_neg hne, hget]
  · rcases mem_putIn hmem with rfl | hmem
    · exact absurd hentry hnode
    · exact hmem

private theorem hasDirectoriesOf_erase : (tree.erase place).HasDirectoriesOf tree := by
  refine ⟨rfl, fun other hget => ?_, fun entry hmem _ => (List.mem_filter.1 hmem).1⟩
  have hne : other ≠ place := by
    rintro rfl
    exact hold hget
  rw [get?_erase tree hplace, if_neg hne, hget]

end

-- ================================================================== links

/-- What overwriting a path with a name leaves of a tree. -/
structure Wear (tree now : FileTree) (path : Text) (name : Name) : Prop where
  /-- The directories are the same. -/
  directories : now.HasDirectoriesOf tree
  /-- A link stays, unless it has the name of the temporary file or is the
  path's own entry. -/
  link : ∀ place target, tree.get? place = some (.link target) →
    now.get? place = some (.link target) ∨ (∃ upper, place = upper ++ [temporaryName name]) ∨
      ∃ directory, tree.EntryIn path directory name ∧ place = directory ++ [name]
  /-- A link was there before, unless it is the path's own entry. -/
  of_link : ∀ place target, now.get? place = some (.link target) →
    tree.get? place = some (.link target) ∨
      ∃ directory, tree.EntryIn path directory name ∧ place = directory ++ [name]

namespace Wear

variable {path : Text} {name : Name}

theorem refl (tree : FileTree) (path : Text) (name : Name) : tree.Wear tree path name :=
  ⟨.refl tree, fun _ _ h => .inl h, fun _ _ h => .inl h⟩

/-- Files come and change where no path goes on. -/
theorem put (h : tree.Wear now path name) {place : Place} (hplace : place ≠ [])
    (hway : ∀ node, isWay node → now.get? place ≠ some node) (content : Bytes) (mode : Nat) :
    tree.Wear (now.put place (.file content mode)) path name := by
  refine ⟨(hasDirectoriesOf_put hplace (hway _ rfl) (by simp)).trans h.directories,
    fun other target hget => ?_, fun other target hget => ?_⟩
  · refine (h.link other target hget).imp_left fun hnow => ?_
    exact hasWaysOf_put hplace hway other _ rfl hnow
  · exact h.of_link other target (hasWaysOf_of_put hplace other _ rfl hget)

/-- What has the name of the temporary file goes. -/
theorem erase (h : tree.Wear now path name) {upper : Place}
    (hold : now.get? (upper ++ [temporaryName name]) ≠ some .directory) :
    tree.Wear (now.erase (upper ++ [temporaryName name])) path name := by
  have hplace : upper ++ [temporaryName name] ≠ [] := by simp
  refine ⟨(hasDirectoriesOf_erase hplace hold).trans h.directories, fun other target hget => ?_,
    fun other target hget => ?_⟩
  · by_cases hother : other = upper ++ [temporaryName name]
    · exact .inr (.inl ⟨upper, hother⟩)
    · rw [get?_erase now hplace, if_neg hother]
      exact h.link other target hget
  · rw [get?_erase now hplace] at hget
    split at hget
    · cases hget
    · exact h.of_link other target hget

/-- Something takes the place of the path's own entry. -/
theorem move (h : tree.Wear now path name) {directory : Place}
    (hentry : tree.EntryIn path directory name)
    (hold : now.get? (directory ++ [name]) ≠ some .directory) {node : Node}
    (hnode : node ≠ .directory) :
    tree.Wear (now.put (directory ++ [name]) node) path name := by
  have hplace : directory ++ [name] ≠ [] := by simp
  refine ⟨(hasDirectoriesOf_put hplace hold hnode).trans h.directories, fun other target hget => ?_,
    fun other target hget => ?_⟩
  · by_cases hother : other = directory ++ [name]
    · exact .inr (.inr ⟨directory, hentry, hother⟩)
    · rw [get?_put now hplace, if_neg hother]
      exact h.link other target hget
  · by_cases hother : other = directory ++ [name]
    · exact .inr ⟨directory, hentry, hother⟩
    · rw [get?_put now hplace, if_neg hother] at hget
      exact h.of_link other target hget

/-- Removing the temporary file removes what has its name. -/
theorem discard (h : tree.Wear now path name) (hname : Path.IsName (temporaryName name)) :
    tree.Wear (now.discard (Path.sibling path (temporaryName name))) path name := by
  rw [FileTree.discard, remove]
  cases hlocate : now.locate .entry (Path.sibling path (temporaryName name)) with
  | error fault => exact h
  | ok target =>
      cases target with
      | vacant => exact h
      | node place node =>
          obtain ⟨upper, hentry⟩ := entryIn_of_locate_join hname hlocate
          obtain ⟨rfl, hget⟩ := hentry.eq_of_locate hlocate
          cases node with
          | directory => exact h
          | file | link =>
              refine h.erase ?_
              rw [hget]
              simp

/-- Writing the temporary file touches no link. -/
theorem write {bytes : Bytes} {given : Option Nat} {written ready : FileTree}
    (hname : Path.IsName (temporaryName name))
    (hwrite : tree.writeBytes (Path.sibling path (temporaryName name)) bytes = .ok written)
    (hmode : written.setModeIfAny (Path.sibling path (temporaryName name)) given = .ok ready) :
    tree.Wear ready path name := by
  obtain ⟨directory, hentry, hheld⟩ := exists_lands_of_setModeIfAny hname hwrite hmode
  obtain ⟨route, held, mode, -, hlands, rfl⟩ := hheld _ hentry.endsIn
  exact (refl tree path name).put hlands.not_isWay.1 hlands.not_isWay.2 _ _

end Wear

/-- Content that is delivered goes under the name of the temporary file and
then to the path's own entry. -/
theorem Delivery.wear {final : FileTree} {path : Text} {steps : List Text} {name : Name}
    {bytes : Bytes} (d : Delivery tree final (tree.start path) steps name (temporaryName name) bytes)
    (hentry : tree.EntryIn path d.directory name) : tree.Wear final path name := by
  have hmoved : d.moved ≠ .directory := by
    intro hmoved
    have hget : (tree.put d.held (.file bytes d.mode)).get? d.source = some .directory :=
      hmoved ▸ d.get?_moved
    have hplace : final.get? d.place = some .directory := by
      rw [d.get?, place, if_pos rfl]
      exact hget
    exact d.not_directory (d.directory_before hplace)
  have hwritten : tree.Wear (tree.put d.held (.file bytes d.mode)) path name :=
    (Wear.refl tree path name).put d.lands.not_isWay.1 d.lands.not_isWay.2 _ _
  have herased : tree.Wear
      ((tree.put d.held (.file bytes d.mode)).erase (d.directory ++ [temporaryName name])) path name := by
    refine hwritten.erase ?_
    rw [d.get?_moved]
    simpa using hmoved
  have hne : d.directory ++ [name] ≠ d.directory ++ [temporaryName name] := d.place_ne_source
  rw [d.final_eq]
  refine herased.move hentry (fun hget => ?_) hmoved
  -- a directory that is there then was there before
  rw [get?_erase _ (by simp), if_neg hne, get?_put tree d.lands.not_isWay.1] at hget
  split at hget
  · cases hget
  · exact d.not_directory hget

/-- Overwriting a path wears the tree as told, whether it fails or not. -/
theorem wear_overwrite (tree : FileTree) {path : Text} (content : Text) {name : Name}
    (hname : Path.fileName? path = some name) :
    tree.Wear (tree.overwrite path content).final path name := by
  cases hresult : (tree.overwrite path content).result with
  | ok =>
      obtain ⟨name', steps, hname', -, -, -, d, hentry, -⟩ := exists_delivery hresult
      obtain rfl : name = name' := Option.some.inj (hname.symm.trans hname')
      exact d.wear hentry
  | error cause =>
      cases hgiven : tree.modeIfAny path with
      | error fault =>
          simp only [overwrite, hname, hgiven]
          exact .refl tree path name
      | ok given =>
      have htemporary : Path.IsName (temporaryName name) :=
        isName_temporaryName (Path.isName_of_fileName? hname (modeIfAny_eq_ok hgiven).1)
      -- the call that failed is followed by the removal, whichever it was
      cases hwrite : tree.writeBytes (Path.sibling path (temporaryName name))
          (Utf8.encode content) with
      | error fault =>
          simp only [overwrite, hname, hgiven, hwrite]
          exact (Wear.refl tree path name).discard htemporary
      | ok written =>
      cases hmode : written.setModeIfAny (Path.sibling path (temporaryName name)) given with
      | error fault =>
          simp only [overwrite, hname, hgiven, hwrite, hmode]
          have hplain : written.setModeIfAny (Path.sibling path (temporaryName name)) none
              = .ok written := rfl
          exact (Wear.write htemporary hwrite hplain).discard htemporary
      | ok ready =>
      cases hrename : ready.rename (Path.sibling path (temporaryName name)) path with
      | error fault =>
          simp only [overwrite, hname, hgiven, hwrite, hmode, hrename]
          exact (Wear.write htemporary hwrite hmode).discard htemporary
      | ok final => simp [overwrite, hname, hgiven, hwrite, hmode, hrename] at hresult

-- ================================================================= routes

/-- A link on a route is not there any more that has the name of a temporary
file. -/
def Breaks (now : FileTree) (route : List Place) : Prop :=
  ∃ upper name, upper ++ [temporaryName name] ∈ route ∧
    ∀ target, now.get? (upper ++ [temporaryName name]) ≠ some (.link target)

/-- A path led to a directory, by a route that is broken now. -/
def LosesWay (tree now : FileTree) (path : Text) : Prop :=
  ∃ route last, tree.Enters route (tree.start path) (Path.pieces path) last ∧ now.Breaks route

/-- What is left of a tree and of a route in it. -/
structure Worn (tree : FileTree) (route : List Place) (now : FileTree) : Prop where
  /-- The directories are the same. -/
  directories : now.HasDirectoriesOf tree
  /-- The links of the route are the same, or it is broken. -/
  links : (∀ place ∈ route, now.get? place = tree.get? place) ∨ now.Breaks route

section
variable {path : Text} {name : Name} {route : List Place} {directory last : Place}
  {pieces : List Text}

/-- The entry of a path that reads as a file is on no way to a directory. -/
theorem EntryIn.not_mem (h : tree.EntryIn path directory name) {old : Text}
    (hread : tree.readSource path = .ok old) {start : Place}
    (hroute : tree.Enters route start pieces last) : directory ++ [name] ∉ route := by
  intro hmem
  obtain ⟨bytes, hbytes, -⟩ := readSource_eq_ok_iff.1 hread
  obtain ⟨_, place, _, -, hlands, -⟩ := h.endsIn.readBytes_eq_ok_iff.1 hbytes
  obtain ⟨before, after, middle, -, hbefore, hlast⟩ := hlands.split
  obtain ⟨_, hdirectory⟩ := h.endsIn.exists_enters h
  obtain ⟨-, rfl⟩ := hbefore.unique hdirectory
  obtain ⟨later, _, hlater, -⟩ := hroute.of_mem hmem
  exact hlast.not_enters hlater

/-- A broken route stays broken: links of that name do not come back. -/
theorem Wear.breaks (h : now.Wear next path name) (hname : ∀ other, name ≠ temporaryName other)
    (hbreaks : now.Breaks route) : next.Breaks route := by
  obtain ⟨upper, other, hmem, hgone⟩ := hbreaks
  refine ⟨upper, other, hmem, fun target hget => ?_⟩
  rcases h.of_link _ target hget with hlink | ⟨directory, -, hplace⟩
  · exact hgone target hlink
  · obtain ⟨-, heq⟩ := List.append_inj' hplace rfl
    exact hname other (List.cons.inj heq).1.symm

/-- A route keeps its links or is broken when a path is overwritten that reads
as a file. -/
theorem Wear.keeps_or_breaks (h : now.Wear next path name) {old : Text}
    (hread : now.readSource path = .ok old) {start : Place}
    (hroute : now.Enters route start pieces last) :
    (∀ place ∈ route, next.get? place = now.get? place) ∨ next.Breaks route := by
  by_cases hsame : ∀ place ∈ route, next.get? place = now.get? place
  · exact .inl hsame
  · obtain ⟨place, hplace⟩ := not_forall.1 hsame
    obtain ⟨hmem, hchanged⟩ := Classical.not_imp.1 hplace
    obtain ⟨target, hlink⟩ := hroute.link_of_mem hmem
    rcases h.link place target hlink with hstays | ⟨upper, rfl⟩ | ⟨directory, hentry, rfl⟩
    · exact absurd (hstays.trans hlink.symm) hchanged
    · -- nothing but the path's own entry can be a link that was none
      refine .inr ⟨upper, name, hmem, fun target' hget => ?_⟩
      rcases h.of_link _ target' hget with hbefore | ⟨directory, -, hplace⟩
      · exact hchanged (hget.trans hbefore.symm)
      · obtain ⟨-, heq⟩ := List.append_inj' hplace rfl
        exact temporaryName_ne name (List.cons.inj heq).1
    · exact absurd hmem (hentry.not_mem hread hroute)

/-- A whole route leads where it led. -/
theorem HasDirectoriesOf.enters (h : now.HasDirectoriesOf tree)
    (hlinks : ∀ place ∈ route, now.get? place = tree.get? place) {start : Place}
    (hroute : tree.Enters route start pieces last) : now.Enters route start pieces last :=
  hroute.of_same h.get? hlinks

/-- What is left of a route stays so when a path is overwritten that reads as
a file and has not the name of a temporary file. -/
theorem Worn.wear (h : tree.Worn route now) (hwear : now.Wear next path name)
    (hname : ∀ other, name ≠ temporaryName other) {old : Text}
    (hread : now.readSource path = .ok old) {start : Place}
    (hroute : tree.Enters route start pieces last) : tree.Worn route next := by
  refine ⟨hwear.directories.trans h.directories, ?_⟩
  rcases h.links with hlinks | hbreaks
  · refine (hwear.keeps_or_breaks hread (h.directories.enters hlinks hroute)).imp_left fun hsame => ?_
    exact fun place hmem => (hsame place hmem).trans (hlinks place hmem)
  · exact .inr (hwear.breaks hname hbreaks)

end

end FileTree

/-- No file has a kind that has the name of a temporary file. -/
theorem FileKind.ofName?_temporaryName (name : Name) :
    FileKind.ofName? (FileTree.temporaryName name) = none := by
  have hlast : ((FileTree.temporaryName name).map Char.toLower).getLast? = some 'p' := by
    rw [FileTree.temporaryName, List.map_append, List.getLast?_append]
    rfl
  have hendings : ∀ ending ∈ endings, ending.1.getLast?.any (· ≠ 'p') = true := by decide
  rw [ofName?, Option.map_eq_none_iff, List.find?_eq_none]
  intro ending hending hsuffix
  obtain ⟨front, hfront⟩ := List.isSuffixOf_iff_suffix.1 hsuffix
  obtain ⟨letter, hletter, hne⟩ := (Option.any_eq_true _ _).1 (hendings ending hending)
  rw [← hfront, List.getLast?_append, hletter] at hlast
  exact absurd (Option.some.inj hlast) (of_decide_eq_true hne)

namespace Batch

variable {batch : Batch} {dryRun : Bool}

/-- What handling a path does to the links of a tree: nothing, or what
overwriting a file does that was read before and has not the name of a
temporary file. -/
theorem wear_handle (dryRun : Bool) (path : Text) (w : Workspace) :
    ((batch.handle dryRun path).run w).state.tree = w.tree ∨
      ∃ name old, (∀ other, name ≠ FileTree.temporaryName other) ∧
        w.tree.readSource path = .ok old ∧
        w.tree.Wear ((batch.handle dryRun path).run w).state.tree path name := by
  rcases batch.tree_handle dryRun path w with hsame | ⟨old, content, htakes, hread, hafter⟩
  · exact .inl hsame
  · obtain ⟨kind, hkind, -⟩ := (Option.any_eq_true _ _).1 htakes
    obtain ⟨name, hname, hofName⟩ := Option.bind_eq_some_iff.1 hkind
    refine .inr ⟨name, old, fun other heq => ?_, hread, ?_⟩
    · rw [heq, FileKind.ofName?_temporaryName] at hofName
      cases hofName
    · rw [hafter]
      exact w.tree.wear_overwrite content hname

section
variable {tree : FileTree} {route : List Place} {start last : Place} {pieces : List Text}
  {w : Workspace}

/-- Handling a path leaves of a route what a run leaves of it. -/
private theorem worn_handle (hroute : tree.Enters route start pieces last) (path : Text)
    (h : tree.Worn route w.tree) :
    tree.Worn route ((batch.handle dryRun path).run w).state.tree := by
  rcases batch.wear_handle dryRun path w with hsame | ⟨name, old, hname, hread, hwear⟩
  · rwa [hsame]
  · exact h.wear hwear hname hread hroute

/-- A route that is broken stays broken. -/
private theorem breaks_handle (path : Text) (h : w.tree.Breaks route) :
    ((batch.handle dryRun path).run w).state.tree.Breaks route := by
  rcases batch.wear_handle dryRun path w with hsame | ⟨name, old, hname, -, hwear⟩
  · rwa [hsame]
  · exact hwear.breaks hname h

end

-- ============================================================ the journey

section
variable {options : BatchOptions} {w : Workspace} {directory : Text} {fault : Fault}

/-- If the directory that ends a journey could be listed before, its path has
lost its way. -/
theorem losesWay_of_halt (h : (batch.journey options w).halt = some (directory, fault))
    {entries : List (Name × Node)} (hlist : w.tree.readDirectory directory = .ok entries) :
    w.tree.LosesWay (batch.journey options w).workspace.tree directory := by
  obtain ⟨hrefusal, route, last, hlength, hroute, -⟩ := FileTree.readDirectory_eq_ok_iff.1 hlist
  have hworn : w.tree.Worn route (batch.journey options w).workspace.tree :=
    journey_keeps (P := fun w' => w.tree.Worn route w'.tree)
      (fun path w' => worn_handle hroute path) ⟨.refl w.tree, .inl fun _ _ => rfl⟩
  have hfails := readDirectory_of_halt h
  generalize (batch.journey options w).workspace.tree = now at hworn hfails ⊢
  rcases hworn.links with hlinks | hbreaks
  · -- by a whole route it could be listed still
    have hroute' := hworn.directories.enters hlinks hroute
    rw [← FileTree.start_of_home hworn.directories.home directory] at hroute'
    have hlists := FileTree.readDirectory_eq_ok_iff.2
      ⟨hrefusal, route, last, hlength, hroute', rfl⟩
    exact absurd (hfails.symm.trans hlists) (by simp)
  · exact ⟨route, last, hroute, hbreaks⟩

end

/-- A path that leads to a directory by a route. -/
structure Continues (tree : FileTree) (route : List Place) (path : Text) : Prop where
  /-- It is not empty. -/
  ne_nil : path ≠ []
  /-- The machine can hold it. -/
  no_nul : '\x00' ∉ path
  /-- It has the route, however long it is itself. -/
  enters : ∃ last, tree.Enters route (tree.start path) (Path.pieces path) last

namespace Continues

variable {tree now : FileTree} {path : Text} {route : List Place}
  (h : Continues tree route path) (hdirectories : now.HasDirectoriesOf tree)
  (hlinks : ∀ place ∈ route, now.get? place = tree.get? place)
include h hdirectories hlinks

/-- The route that led to a directory still leads there. -/
private theorem enters_now : ∃ last, tree.Enters route (tree.start path) (Path.pieces path) last ∧
    now.Enters route (now.start path) (Path.pieces path) last := by
  obtain ⟨last, hroute⟩ := h.enters
  refine ⟨last, hroute, ?_⟩
  rw [FileTree.start_of_home hdirectories.home]
  exact hdirectories.enters hlinks hroute

/-- As long as the route is whole, only a path that is too long cannot be
listed. -/
theorem long_of_error (hlength : route.length ≤ FileTree.maxLinks) {fault : Fault}
    (hfails : now.readDirectory path = .error fault) : FileTree.maxPath < Text.byteSize path := by
  refine Nat.lt_of_not_le fun hfits => ?_
  obtain ⟨last, -, hroute⟩ := h.enters_now hdirectories hlinks
  have hlists := FileTree.readDirectory_eq_ok_iff.2
    ⟨FileTree.refusal?_of_fits h.no_nul h.ne_nil hfits, route, last, hlength, hroute, rfl⟩
  exact absurd (hfails.symm.trans hlists) (by simp)

/-- As long as the route is whole, a directory in a directory is one that was
there at first. -/
theorem join (hsound : tree.Sound) {entries : List (Name × Node)}
    (hlists : now.readDirectory path = .ok entries) {entry : Name × Node} (hmem : entry ∈ entries)
    (hentry : entry.2.isDirectory = true) : Continues tree route (Path.join path entry.1) := by
  obtain ⟨last, hroute, hnow⟩ := h.enters_now hdirectories hlinks
  obtain ⟨-, route', last', -, hroute', rfl⟩ := FileTree.readDirectory_eq_ok_iff.1 hlists
  obtain ⟨-, rfl⟩ := hnow.unique hroute'
  obtain ⟨name, node⟩ := entry
  obtain rfl : node = .directory := Node.isDirectory_iff.1 hentry
  have hplace : (last ++ [name], .directory) ∈ tree.entries :=
    hdirectories.mem _ (FileTree.mem_entries_of_mem_children hmem) rfl
  have hget := (hsound.mem_entries_iff.1 hplace).2
  obtain ⟨hname, hfits⟩ := hsound.isName hget (List.mem_append_right last (.head _))
  refine ⟨Path.join_ne_nil hname, Path.nul_not_mem_join hname h.no_nul, last ++ [name], ?_⟩
  rw [FileTree.start_congr (Path.isAbsolute_join hname), Path.pieces_join hname, ← List.append_nil route]
  exact hroute.append (.step ⟨hname.ne_dot, hname.ne_dots, hfits⟩ hget .done)

end Continues

/-- A directory that a journey can get to: it has the route, or that is
broken. -/
def Reached (tree : FileTree) (route : List Place) (journey : Journey) (directory : Text) : Prop :=
  journey.workspace.tree.Breaks route ∨ Continues tree route directory

/-- A journey that has left of a route what a run leaves, and has ended, if it
has, at a path that is too long or because the route is broken. -/
structure Wends (tree : FileTree) (route : List Place) (journey : Journey) : Prop where
  worn : tree.Worn route journey.workspace.tree
  halt : ∀ directory fault, journey.halt = some (directory, fault) →
    FileTree.maxPath < Text.byteSize directory ∨ journey.workspace.tree.Breaks route

section
variable {tree : FileTree} {route : List Place} {start last : Place} {pieces : List Text}
  {journey : Journey} (h : Wends tree route journey)
include h

theorem Wends.stopBy (hroute : tree.Enters route start pieces last) (path : Text)
    (hgoes : journey.halt = none) : Wends tree route (batch.stopBy dryRun path journey) := by
  refine ⟨worn_handle hroute path h.worn, fun directory fault hhalt => ?_⟩
  exact absurd (hgoes.symm.trans hhalt) (by simp)

variable {directory : Text} (hreached : Reached tree route journey directory)
include hreached

/-- A journey that ends at a directory it could reach does so in one of the
two ways. -/
private theorem Wends.halted (hlength : route.length ≤ FileTree.maxLinks) {fault : Fault}
    (hfails : journey.workspace.tree.readDirectory directory = .error fault) :
    Wends tree route { journey with halt := some (directory, fault) } := by
  refine ⟨h.worn, fun directory' fault' hhalt => ?_⟩
  cases hhalt
  rcases hreached with hbreaks | hcontinues
  · exact .inr hbreaks
  · exact h.worn.links.imp_left fun hlinks =>
      hcontinues.long_of_error h.worn.directories hlinks hlength hfails

/-- From a directory that was reached, the directories in it are reached. -/
theorem Reached.join (hsound : tree.Sound) {entries : List (Name × Node)}
    (hlists : journey.workspace.tree.readDirectory directory = .ok entries)
    {entry : Name × Node} (hmem : entry ∈ entries) (hentry : entry.2.isDirectory = true) :
    Reached tree route journey (Path.join directory entry.1) := by
  rcases hreached with hbreaks | hcontinues
  · exact .inl hbreaks
  · rcases h.worn.links with hlinks | hbreaks
    · exact .inr (hcontinues.join h.worn.directories hlinks hsound hlists hmem hentry)
    · exact .inl hbreaks

end

/-- On a machine's tree a journey ends at a path that is too long, or the path
of the root has lost its way. -/
theorem halt_of_sound {options : BatchOptions} {w : Workspace} (hsound : w.tree.Sound)
    (hroot : w.tree.lookAt .target batch.root = .ok .directory) {directory : Text} {fault : Fault}
    (h : (batch.journey options w).halt = some (directory, fault)) :
    FileTree.maxPath < Text.byteSize directory ∨
      w.tree.LosesWay (batch.journey options w).workspace.tree batch.root := by
  obtain ⟨top, hlocate⟩ := FileTree.locate_of_lookAt hroot
  obtain ⟨hnul, hne, -⟩ := FileTree.accepts_of_locate hlocate
  have hlist : w.tree.readDirectory batch.root = .ok (w.tree.children top) := by
    rw [FileTree.readDirectory, hlocate]
  obtain ⟨-, route, last, hlength, hroute, -⟩ := FileTree.readDirectory_eq_ok_iff.1 hlist
  have hjourney : batch.journey options w = batch.travel options.dryRun
      (w.tree.levels options.recursive) batch.root ⟨[], w, none⟩ := by
    rw [journey, hroot]
    rfl
  have hstart : Wends w.tree route ⟨[], w, none⟩ := ⟨⟨.refl w.tree, .inl fun _ _ => rfl⟩, by simp⟩
  have hwends : Wends w.tree route (batch.journey options w) := by
    rw [hjourney]
    refine (travel_reaches (R := Reached w.tree route) ?_ ?_ ?_ _ _ rfl hstart
      (.inr ⟨hne, hnul, last, hroute⟩)).1
    · exact fun path journey hgoes h => ⟨h.stopBy hroute path hgoes,
        fun _ hreached => hreached.imp_left (breaks_handle path)⟩
    · exact fun directory fault journey hfails h hreached =>
        ⟨h.halted hreached hlength hfails, fun _ hother => hother⟩
    · exact fun directory entries journey entry hlists h hreached hmem hentry =>
        hreached.join h hsound hlists hmem hentry
  exact (hwends.halt directory fault h).imp_right fun hbreaks => ⟨route, last, hroute, hbreaks⟩

end Batch

end TaggedSource

/-
Paths as entries of directories, in any tree.

Nothing is asked of the tree here: links may lead anywhere, and a path may
be of any form. Two things are said about following paths in such a tree.

# Names behind a directory

Following a path that ends in a name is following the pieces in front of it
to a directory and looking the name up there (`follow_concat`). A path has
its entry there, `EntryIn`, and all calls that take the path mean the place
of this entry, each with an intent of its own (`EntryIn.locate`).

# Ways

On its way a path goes through directories and links only. A tree that has
the directories and links of another one (`HasWaysOf`) lets a path through
to the same place (`follow_of_hasWaysOf`); and where a path ends at anything
but a directory, the place has the last piece of the path as its name
(`follow_node`). A new file is no way, so it does not come between a path
and its entry, unless it is that entry (`entryAt?_put`).
-/
import TaggedSource.Proofs.Overwrite

namespace TaggedSource.FileTree

variable {tree : FileTree}

-- ========================================== names behind a directory

/-- The directory that pieces led to. -/
def entered : Except Fault Target → Except Fault Place
  | .error fault => .error fault
  | .ok (.vacant ..) => .error .noEntry
  | .ok (.node place _) => .ok place

/-- A name behind some pieces is looked up in the directory that they lead
to, with the links that are left. -/
theorem follow_concat (tree : FileTree) (intent : Intent) (links : Nat) (directory : Place)
    (pieces : List Text) (name : Text) (slash : Bool) :
    ∃ left, tree.follow intent links directory (pieces ++ [name]) slash
      = entered (tree.follow .target links directory pieces true) >>=
        fun place => tree.follow intent left place [name] slash := by
  generalize hended : true = ended
  have hmore (rest : List Text) : (rest ++ [name]).isEmpty = false := by simp
  fun_induction FileTree.follow tree .target links directory pieces ended with
  | case1 links directory ended => exact ⟨links, rfl⟩
  | case2 links directory ended rest ih =>
      obtain ⟨left, ih⟩ := ih hended
      refine ⟨left, ?_⟩
      rw [List.cons_append, ← ih]
      conv => lhs; unfold follow
      rw [if_pos rfl]
  | case3 links directory ended rest hdot ih =>
      obtain ⟨left, ih⟩ := ih hended
      refine ⟨left, ?_⟩
      rw [List.cons_append, ← ih]
      conv => lhs; unfold follow
      rw [if_neg hdot, if_pos rfl]
  | case4 links directory ended piece rest hdot hdots hwrite => simp at hwrite
  | case5 links directory ended piece rest hdot hdots hwrite hlong =>
      refine ⟨0, ?_⟩
      rw [List.cons_append, follow, if_neg hdot, if_neg hdots, if_neg (by simp), if_pos hlong]
      rfl
  | case6 links directory ended piece rest hdot hdots hwrite hlong place hget hrest =>
      refine ⟨0, ?_⟩
      rw [List.cons_append, follow, if_neg hdot, if_neg hdots, if_neg (by simp), if_neg hlong]
      have hget : tree.get? (directory ++ [piece]) = none := hget
      simp only [hget, hmore]
      rfl
  | case7 links directory ended piece rest hdot hdots hwrite hlong place hget hrest =>
      refine ⟨0, ?_⟩
      rw [List.cons_append, follow, if_neg hdot, if_neg hdots, if_neg (by simp), if_neg hlong]
      have hget : tree.get? (directory ++ [piece]) = none := hget
      simp only [hget, hmore]
      rfl
  | case8 links directory ended piece rest hdot hdots hwrite hlong place hget ih =>
      obtain ⟨left, ih⟩ := ih hended
      refine ⟨left, ?_⟩
      rw [List.cons_append, ← ih]
      conv => lhs; unfold follow
      rw [if_neg hdot, if_neg hdots, if_neg (by simp), if_neg hlong]
      have hget : tree.get? (directory ++ [piece]) = some .directory := hget
      simp only [hget]
      rfl
  | case9 links directory ended piece rest hdot hdots hwrite hlong place content mode hget hrest =>
      simp [← hended] at hrest
  | case10 links directory ended piece rest hdot hdots hwrite hlong place content mode hget hrest =>
      refine ⟨0, ?_⟩
      rw [List.cons_append, follow, if_neg hdot, if_neg hdots, if_neg (by simp), if_neg hlong]
      have hget : tree.get? (directory ++ [piece]) = some (.file content mode) := hget
      simp only [hget, hmore]
      rfl
  | case11 links directory ended piece rest hdot hdots hwrite hlong place target hget hentry =>
      simp at hentry
  | case12 directory ended piece rest hdot hdots hwrite hlong place target hget hentry =>
      refine ⟨0, ?_⟩
      rw [List.cons_append, follow, if_neg hdot, if_neg hdots, if_neg (by simp), if_neg hlong]
      have hget : tree.get? (directory ++ [piece]) = some (.link target) := hget
      simp only [hget, hmore]
      rfl
  | case13 directory ended piece rest hdot hdots hwrite hlong place target hget hentry links ih =>
      obtain ⟨left, ih⟩ := ih (by simp [← hended])
      refine ⟨left, Eq.trans ?_ ih⟩
      rw [List.cons_append]
      conv => lhs; unfold follow
      rw [if_neg hdot, if_neg hdots, if_neg (by simp), if_neg hlong]
      have hget : tree.get? (directory ++ [piece]) = some (.link target) := hget
      simp only [hget, hmore, Bool.false_and, Bool.or_false, List.append_assoc]
      rfl

-- ================================================================= ways

/-- Whether paths go on from a node. -/
def isWay : Node → Bool
  | .file .. => false
  | _ => true

/-- A tree with the directories and links of another one. -/
def HasWaysOf (tree' tree : FileTree) : Prop :=
  ∀ place node, isWay node → tree.get? place = some node → tree'.get? place = some node

/-- A path that leads to something still leads there in a tree with the same
ways, unless the end of it has changed. -/
private theorem follow_of_hasWaysOf {tree tree' : FileTree} (hways : tree'.HasWaysOf tree)
    {intent : Intent} {links : Nat} {directory place : Place} {pieces : List Text} {slash : Bool}
    {node : Node}
    (h : tree.follow intent links directory pieces slash = .ok (.node place node))
    (hnode : node = .directory ∨ tree'.get? place = some node) :
    tree'.follow intent links directory pieces slash = .ok (.node place node) := by
  fun_induction FileTree.follow tree intent links directory pieces slash with
  | case1 => rw [follow, h]
  | case2 links directory slash rest ih =>
      unfold follow
      rw [if_pos rfl]
      exact ih h
  | case3 links directory slash rest hdot ih =>
      unfold follow
      rw [if_neg hdot, if_pos rfl]
      exact ih h
  | case4 => cases h
  | case5 => cases h
  | case6 => cases h
  | case7 => cases h
  | case8 links directory slash piece rest hdot hdots hwrite hlong next hget ih =>
      unfold follow
      rw [if_neg hdot, if_neg hdots, if_neg hwrite, if_neg hlong]
      simp only [hways (directory ++ [piece]) .directory rfl hget]
      exact ih h
  | case9 links directory slash piece rest hdot hdots hwrite hlong next content mode hget hrest =>
      obtain ⟨rfl, rfl⟩ : directory ++ [piece] = place ∧ .file content mode = node := by
        simpa using h
      rcases hnode with hnode | hnode
      · cases hnode
      · rw [follow, if_neg hdot, if_neg hdots, if_neg hwrite, if_neg hlong]
        simp only [hnode, if_pos hrest]
  | case10 => cases h
  | case11 links directory slash piece rest hdot hdots hwrite hlong next target hget hentry =>
      obtain ⟨rfl, rfl⟩ : directory ++ [piece] = place ∧ .link target = node := by
        simpa using h
      rw [follow, if_neg hdot, if_neg hdots, if_neg hwrite, if_neg hlong]
      simp only [hways (directory ++ [piece]) (.link target) rfl hget, if_pos hentry]
  | case12 => cases h
  | case13 directory slash piece rest hdot hdots hwrite hlong next target hget hentry links ih =>
      unfold follow
      rw [if_neg hdot, if_neg hdots, if_neg hwrite, if_neg hlong]
      simp only [hways (directory ++ [piece]) (.link target) rfl hget, if_neg hentry]
      exact ih h

/-- What is found and is no directory stands where it was found, under the
last piece unless links at the end are followed. -/
theorem follow_node {intent : Intent} {links : Nat} {directory place : Place}
    {pieces : List Text} {slash : Bool} {node : Node}
    (h : tree.follow intent links directory pieces slash = .ok (.node place node))
    (hnode : node ≠ .directory) :
    slash = false ∧ tree.get? place = some node ∧
      (intent = .entry → place.getLast? = pieces.getLast?) := by
  -- with no more pieces the place would be the root, which is a directory
  have hlater {piece : Text} {rest : List Text} (hget : tree.get? place = some node)
      (hlast : place.getLast? = rest.getLast?) : place.getLast? = (piece :: rest).getLast? := by
    cases rest with
    | nil =>
        rw [List.getLast?_nil, List.getLast?_eq_none_iff] at hlast
        subst hlast
        exact absurd (Option.some.inj hget).symm hnode
    | cons => rw [hlast, List.getLast?_cons_cons]
  fun_induction FileTree.follow tree intent links directory pieces slash with
  | case1 =>
      cases h
      exact absurd rfl hnode
  | case2 links directory slash rest ih | case3 links directory slash rest hdot ih =>
      obtain ⟨hslash, hget, hlast⟩ := ih h
      exact ⟨hslash, hget, fun hintent => hlater hget (hlast hintent)⟩
  | case4 => cases h
  | case5 => cases h
  | case6 => cases h
  | case7 => cases h
  | case8 links directory slash piece rest hdot hdots hwrite hlong next hdirectory ih =>
      obtain ⟨hslash, hget, hlast⟩ := ih h
      exact ⟨hslash, hget, fun hintent => hlater hget (hlast hintent)⟩
  | case9 links directory slash piece rest hdot hdots hwrite hlong next content mode hget hrest =>
      obtain ⟨rfl, rfl⟩ : directory ++ [piece] = place ∧ .file content mode = node := by
        simpa using h
      rw [Bool.and_eq_true, List.isEmpty_iff, Bool.not_eq_true'] at hrest
      refine ⟨hrest.2, hget, fun _ => ?_⟩
      rw [hrest.1, List.getLast?_concat, List.getLast?_singleton]
  | case10 => cases h
  | case11 links directory slash piece rest hdot hdots hwrite hlong next target hget hentry =>
      obtain ⟨rfl, rfl⟩ : directory ++ [piece] = place ∧ .link target = node := by
        simpa using h
      simp only [Bool.and_eq_true, List.isEmpty_iff, Bool.not_eq_true', decide_eq_true_eq] at hentry
      refine ⟨hentry.1.2, hget, fun _ => ?_⟩
      rw [hentry.1.1, List.getLast?_concat, List.getLast?_singleton]
  | case12 => cases h
  | case13 directory slash piece rest hdot hdots hwrite hlong next target hlink hentry links ih =>
      obtain ⟨hslash, hget, hlast⟩ := ih h
      rw [Bool.or_eq_false_iff] at hslash
      refine ⟨hslash.1, hget, fun hintent => ?_⟩
      -- the link is not the last piece, or the call would have stopped there
      cases rest with
      | nil => simp [hslash.1, hintent] at hentry
      | cons next rest =>
          rw [hlast hintent, List.getLast?_append, List.getLast?_cons_cons]
          simp [List.getLast?_cons]

-- ======================================================= entries of paths

/-- A path whose entry is a name in a directory, whether there is one or
not. -/
structure EntryIn (tree : FileTree) (path : Text) (directory : Place) (name : Name) : Prop where
  /-- The pieces in front lead to the directory. -/
  split : tree.splitLast path = .ok (directory, name)
  /-- The name leads down. -/
  ne_dot : name ≠ ['.']
  /-- The name does not lead up. -/
  ne_dots : name ≠ ['.', '.']
  /-- The machine takes the name. -/
  fits : Text.byteSize name ≤ maxName
  /-- No directory is asked for. -/
  no_slash : Path.endsInSlash path = false

/-- What a path leads to, a link included. -/
def entryAt? (tree : FileTree) (path : Text) : Option Node := (tree.lookAt .entry path).toOption

/-- Where the entry of a path is or would be. -/
def placeAt? (tree : FileTree) (path : Text) : Option Place :=
  match tree.locate .entry path with
  | .error _ => none
  | .ok (.vacant directory name) => some (directory ++ [name])
  | .ok (.node place _) => some place

theorem entryAt?_eq_some {path : Text} {node : Node} :
    tree.entryAt? path = some node ↔ ∃ place, tree.locate .entry path = .ok (.node place node) := by
  constructor
  · intro h
    unfold entryAt? at h
    cases hlook : tree.lookAt .entry path with
    | error fault =>
        rw [hlook] at h
        cases h
    | ok found =>
        rw [hlook] at h
        cases h
        exact locate_of_lookAt hlook
  · rintro ⟨place, h⟩
    rw [entryAt?, lookAt, h]
    rfl

/-- A path is split where all but its last piece leads to a directory. -/
theorem splitLast_eq_ok {path : Text} {directory : Place} {name : Text} :
    tree.splitLast path = .ok (directory, name) ↔ refusal? path = none ∧
      (Path.pieces path).getLastD ['.'] = name ∧
      entered (tree.follow .target maxLinks (tree.start path) (Path.pieces path).dropLast true)
        = .ok directory := by
  unfold splitLast
  cases refusal? path with
  | some fault => simp
  | none =>
      simp only
      split
      · next hfollow => simp [hfollow, entered]
      · next hfollow => simp [hfollow, entered]
      · next hfollow => simp [hfollow, entered, and_comm]

namespace EntryIn

variable {path : Text} {directory : Place} {name : Name} (h : tree.EntryIn path directory name)
include h

theorem pieces_eq : Path.pieces path = (Path.pieces path).dropLast ++ [name] := by
  obtain ⟨-, hlast, -⟩ := splitLast_eq_ok.1 h.split
  by_cases hnil : Path.pieces path = []
  · rw [hnil] at hlast
    exact absurd hlast.symm h.ne_dot
  · rw [List.getLastD_eq_getLast?, List.getLast?_eq_some_getLast hnil, Option.getD_some] at hlast
    rw [← hlast, List.dropLast_concat_getLast]

/-- The path leads to its entry, or to what is there if that is no link. -/
theorem locate (intent : Intent)
    (hstop : intent = .entry ∨ ∀ target, tree.get? (directory ++ [name]) ≠ some (.link target)) :
    tree.locate intent path = .ok (tree.targetIn directory name) := by
  obtain ⟨hrefusal, -, hentered⟩ := splitLast_eq_ok.1 h.split
  obtain ⟨left, hfollow⟩ := follow_concat tree intent maxLinks (tree.start path)
    (Path.pieces path).dropLast name false
  rw [FileTree.locate, hrefusal]
  simp only
  rw [h.no_slash, h.pieces_eq, hfollow, hentered]
  exact follow_name h.ne_dot h.ne_dots h.fits hstop

/-- The place of the entry is the name in the directory. -/
theorem placeAt?_eq : tree.placeAt? path = some (directory ++ [name]) := by
  rw [placeAt?, h.locate .entry (.inl rfl)]
  cases hnode : tree.get? (directory ++ [name]) with
  | none => rw [targetIn_of_none hnode]
  | some node => rw [targetIn_of_some hnode]

/-- Whatever stands at the path stands at that place. -/
theorem eq_of_locate {place : Place} {node : Node}
    (hlocate : tree.locate .entry path = .ok (.node place node)) :
    place = directory ++ [name] ∧ tree.get? (directory ++ [name]) = some node := by
  rw [h.locate .entry (.inl rfl)] at hlocate
  cases hget : tree.get? (directory ++ [name]) with
  | none =>
      rw [targetIn_of_none hget] at hlocate
      cases hlocate
  | some other =>
      rw [targetIn_of_some hget] at hlocate
      cases hlocate
      exact ⟨rfl, rfl⟩

/-- The entry is where it was in a tree with the same ways. -/
theorem of_hasWaysOf {tree' : FileTree} (hhome : tree'.home = tree.home)
    (hways : tree'.HasWaysOf tree) : tree'.EntryIn path directory name := by
  refine ⟨?_, h.ne_dot, h.ne_dots, h.fits, h.no_slash⟩
  obtain ⟨hrefusal, hlast, hentered⟩ := splitLast_eq_ok.1 h.split
  refine splitLast_eq_ok.2 ⟨hrefusal, hlast, ?_⟩
  cases hfollow : tree.follow .target maxLinks (tree.start path) (Path.pieces path).dropLast true with
  | error fault =>
      rw [hfollow] at hentered
      cases hentered
  | ok target =>
      cases target with
      | vacant =>
          rw [hfollow] at hentered
          cases hentered
      | node place node =>
          -- a slash at the end only lets a directory through
          have hnode : node = .directory :=
            Decidable.byContradiction fun hne => absurd (follow_node hfollow hne).1 (by simp)
          rw [start_of_home hhome, follow_of_hasWaysOf hways hfollow (.inl hnode), ← hfollow]
          exact hentered

end EntryIn

/-- Whatever the intent, a path that ends in a name leads to an entry, or
the machine refuses it. -/
theorem entryIn_of_locate_join {base : Text} {name : Name} {intent : Intent} {target : Target}
    (hname : Path.IsName name) (h : tree.locate intent (Path.join base name) = .ok target) :
    ∃ directory, tree.EntryIn (Path.join base name) directory name := by
  rw [locate] at h
  split at h
  · cases h
  · next hrefusal =>
    rw [Path.pieces_join hname, Path.endsInSlash_join hname] at h
    obtain ⟨left, hfollow⟩ := follow_concat tree intent maxLinks
      (tree.start (Path.join base name)) (Path.pieces base) name false
    rw [hfollow] at h
    cases hentered : entered (tree.follow .target maxLinks (tree.start (Path.join base name))
        (Path.pieces base) true) with
    | error fault =>
        rw [hentered] at h
        cases h
    | ok directory =>
        have hsplit : tree.splitLast (Path.join base name) = .ok (directory, name) :=
          splitLast_eq_ok.2 ⟨hrefusal, by simp [Path.pieces_join hname],
            by simpa [Path.pieces_join hname] using hentered⟩
        have hlast : tree.follow intent left directory [name] false = .ok target := by
          rwa [hentered] at h
        have hfits : ¬ maxName < Text.byteSize name := by
          intro hlong
          rw [follow, if_neg hname.ne_dot, if_neg hname.ne_dots, if_neg (by simp),
            if_pos hlong] at hlast
          cases hlast
        exact ⟨directory, hsplit, hname.ne_dot, hname.ne_dots, Nat.not_lt.1 hfits,
          Path.endsInSlash_join hname⟩

/-- Another tree with the same ways and, under the last piece of a path,
with the same entries has the same entry at the path. -/
theorem HasWaysOf.entryAt? {tree' : FileTree} (hways : tree'.HasWaysOf tree)
    (hhome : tree'.home = tree.home) {path : Text} {node : Node}
    (hsame : ∀ place, place.getLast? = (Path.pieces path).getLast? →
      tree.get? place = some node → tree'.get? place = some node)
    (h : tree.entryAt? path = some node) : tree'.entryAt? path = some node := by
  obtain ⟨place, hlocate⟩ := entryAt?_eq_some.1 h
  refine entryAt?_eq_some.2 ⟨place, ?_⟩
  rw [locate] at hlocate ⊢
  split at hlocate
  · cases hlocate
  · rw [start_of_home hhome]
    refine follow_of_hasWaysOf hways hlocate ?_
    by_cases hnode : node = .directory
    · exact .inl hnode
    · obtain ⟨-, hget, hlast⟩ := follow_node hlocate hnode
      exact .inr (hsame place (hlast rfl) hget)

-- ================================================= a file that comes anew

section
variable {place : Place} {content : Bytes} {mode : Nat} (hplace : place ≠ [])
include hplace

/-- A file that replaces no directory and no link leaves all ways. -/
theorem hasWaysOf_put (h : ∀ node, isWay node → tree.get? place ≠ some node) :
    (tree.put place (.file content mode)).HasWaysOf tree := by
  intro other node hway hget
  have hne : other ≠ place := by
    rintro rfl
    exact h node hway hget
  rw [get?_put tree hplace, if_neg hne, hget]

/-- A file opens no new way. -/
theorem hasWaysOf_of_put : tree.HasWaysOf (tree.put place (.file content mode)) := by
  intro other node hway hget
  rw [get?_put tree hplace] at hget
  split at hget
  · cases hget
    cases hway
  · exact hget

/-- The entry at a path with another name is not touched. -/
theorem entryAt?_of_put {path : Text} {node : Node}
    (hlast : place.getLast? ≠ (Path.pieces path).getLast?)
    (h : (tree.put place (.file content mode)).entryAt? path = some node) :
    tree.entryAt? path = some node := by
  refine (hasWaysOf_of_put hplace).entryAt? rfl (fun other hother hget => ?_) h
  have hne : other ≠ place := by
    rintro rfl
    exact hlast hother
  rwa [get?_put tree hplace, if_neg hne] at hget

/-- A new file shows at no path that ends in another name. -/
theorem entryAt?_put {path : Text} (hlast : place.getLast? ≠ (Path.pieces path).getLast?)
    (h : tree.get? place = none) :
    (tree.put place (.file content mode)).entryAt? path = tree.entryAt? path := by
  refine Option.ext fun node => ⟨entryAt?_of_put hplace hlast, fun hentry => ?_⟩
  refine (hasWaysOf_put hplace (by simp [h])).entryAt? rfl (fun other hother hget => ?_) hentry
  have hne : other ≠ place := by
    rintro rfl
    exact hlast hother
  rw [get?_put tree hplace, if_neg hne, hget]

end

-- ========================================================= the four calls

theorem discard_of_vacant {path : Text} (h : tree.entryAt? path = none) :
    tree.discard path = tree := by
  unfold discard remove
  cases hlocate : tree.locate .entry path with
  | error fault => rfl
  | ok target =>
      cases target with
      | vacant => rfl
      | node place node =>
          have hentry := entryAt?_eq_some.2 ⟨place, hlocate⟩
          rw [h] at hentry
          cases hentry

/-- Writing to a path without an entry makes a new file. -/
theorem writeBytes_of_vacant {base : Text} {name : Name} {content : Bytes} {written : FileTree}
    (hname : Path.IsName name) (hvacant : tree.entryAt? (Path.join base name) = none)
    (h : tree.writeBytes (Path.join base name) content = .ok written) :
    ∃ directory, tree.EntryIn (Path.join base name) directory name ∧
      tree.get? (directory ++ [name]) = none ∧
      written = tree.put (directory ++ [name]) (.file content newFileMode) := by
  cases hlocate : tree.locate .write (Path.join base name) with
  | error fault =>
      rw [writeBytes, hlocate] at h
      cases h
  | ok target =>
      obtain ⟨directory, hentry⟩ := entryIn_of_locate_join hname hlocate
      have hnone : tree.get? (directory ++ [name]) = none := by
        cases hget : tree.get? (directory ++ [name]) with
        | none => rfl
        | some node =>
            have hfound := hentry.locate .entry (.inl rfl)
            rw [targetIn_of_some hget] at hfound
            rw [entryAt?_eq_some.2 ⟨_, hfound⟩] at hvacant
            cases hvacant
      rw [writeBytes, hentry.locate .write (.inr (by simp [hnone])), targetIn_of_none hnone] at h
      cases h
      exact ⟨directory, hentry, hnone, rfl⟩

/-- What a rename has done that did not fail. -/
theorem rename_eq_ok {source destination : Text} {final : FileTree}
    (h : tree.rename source destination = .ok final) :
    ∃ directory name place node, tree.EntryIn destination directory name ∧
      tree.locate .entry source = .ok (.node place node) ∧
      tree.get? (directory ++ [name]) ≠ some .directory ∧
      final = if directory ++ [name] = place then tree
        else (tree.erase place).put (directory ++ [name]) node := by
  rw [rename] at h
  cases hsplit : tree.splitLast destination with
  | error fault =>
      rw [hsplit] at h
      cases h
  | ok found =>
      obtain ⟨directory, name⟩ := found
      rw [hsplit] at h
      simp only [bind, Except.bind] at h
      split at h
      · cases h
      · cases h
      · next place node hlocate =>
        split at h
        · cases h
        next hdots =>
        split at h
        · cases h
        next hfits =>
        split at h
        · cases h
        next hslash =>
        split at h
        · cases h
        next hdirectory =>
        rw [Bool.or_eq_true, decide_eq_true_eq, decide_eq_true_eq, not_or] at hdots
        refine ⟨directory, name, place, node, ⟨hsplit, hdots.1, hdots.2, Nat.not_lt.1 hfits, ?_⟩,
          hlocate, ?_, ?_⟩
        · simpa using hslash
        · intro hget
          simp [hget, Node.isDirectory] at hdirectory
        · split at h <;> simp_all

namespace EntryIn

variable {path : Text} {directory : Place} {name : Name} (h : tree.EntryIn path directory name)
  (content : Bytes) (mode : Nat)
include h

/-- A file at the entry of a path is what the path leads to, unless a link
has made way for it that the path goes through. -/
theorem locate_put (hway : ∀ node, isWay node → tree.get? (directory ++ [name]) ≠ some node)
    (intent : Intent) :
    (tree.put (directory ++ [name]) (.file content mode)).locate intent path
      = .ok (.node (directory ++ [name]) (.file content mode)) := by
  have hplace : directory ++ [name] ≠ [] := by simp
  have hget : (tree.put (directory ++ [name]) (.file content mode)).get? (directory ++ [name])
      = some (.file content mode) := by
    rw [get?_put tree hplace, if_pos rfl]
  have hmade : (tree.put (directory ++ [name]) (.file content mode)).EntryIn path directory name :=
    h.of_hasWaysOf rfl (hasWaysOf_put hplace hway)
  rw [hmade.locate intent (.inr (by simp [hget])), targetIn_of_some hget]

variable (hnone : tree.get? (directory ++ [name]) = none)
include hnone

/-- The bits of a file that was just written can be set. -/
theorem setModeIfAny_put (given : Option Nat) :
    (tree.put (directory ++ [name]) (.file content mode)).setModeIfAny path given
      = .ok (tree.put (directory ++ [name]) (.file content (given.getD mode))) := by
  cases given with
  | none => rfl
  | some other =>
      rw [setModeIfAny, setMode, h.locate_put _ _ (by simp [hnone])]
      simp only
      rw [put_put]
      rfl

/-- Discarding a new file undoes writing it. -/
theorem discard_put : (tree.put (directory ++ [name]) (.file content mode)).discard path = tree := by
  rw [discard, remove, h.locate_put _ _ (by simp [hnone])]
  exact erase_put (by simp) hnone

/-- Renaming the new file moves it to the entry of the other path. -/
theorem rename_put {destination : Text} {final : FileTree}
    (hother : Path.fileName? destination ≠ some name)
    (hrename : (tree.put (directory ++ [name]) (.file content mode)).rename path destination
      = .ok final) :
    ∃ directory' name', tree.EntryIn destination directory' name' ∧
      tree.get? (directory' ++ [name']) ≠ some .directory ∧
      final = tree.put (directory' ++ [name']) (.file content mode) := by
  have hplace : directory ++ [name] ≠ [] := by simp
  obtain ⟨directory', name', place, node, hentry, hlocate, hdirectory, rfl⟩ := rename_eq_ok hrename
  have hbefore : tree.EntryIn destination directory' name' :=
    hentry.of_hasWaysOf rfl (hasWaysOf_of_put hplace)
  obtain ⟨rfl, rfl⟩ : directory ++ [name] = place ∧ .file content mode = node := by
    simpa [h.locate_put content mode (by simp [hnone])] using hlocate
  have hne : directory' ++ [name'] ≠ directory ++ [name] := by
    intro heq
    obtain ⟨-, heq⟩ := List.append_inj' heq rfl
    cases heq
    exact hother (Path.fileName?_of_pieces hbefore.pieces_eq hbefore.ne_dot hbefore.ne_dots)
  rw [get?_put tree hplace, if_neg hne] at hdirectory
  exact ⟨directory', name', hbefore, hdirectory, by rw [if_neg hne, erase_put hplace hnone]⟩

end EntryIn

/-- The bits that are carried over are those of the old file, or there was
none. -/
theorem modeIfAny_eq_ok {path : Text} {given : Option Nat} (h : tree.modeIfAny path = .ok given) :
    '\x00' ∉ path ∧ (tree.modeOf path = .ok (given.getD newFileMode) ∨
      tree.modeOf path = .error .noEntry ∧ given.getD newFileMode = newFileMode) := by
  constructor
  · intro hnul
    have hrefusal : refusal? path = some .nulInPath := if_pos (by simpa using hnul)
    rw [modeIfAny, modeOf, lookAt, locate, hrefusal] at h
    cases h
  · unfold modeIfAny at h
    split at h
    · next mode hmode =>
      cases h
      exact .inl hmode
    · next hmode =>
      cases h
      exact .inr ⟨hmode, rfl⟩
    · cases h

end TaggedSource.FileTree

/-
The routes of paths, in any tree.

A path that comes to its end has gone through directories and links. Which
links these were, in their order, is the route of the path. Pieces that lead
to a directory have a route by `Enters`; pieces that lead to a file, or to a
name that is not there, have one by `Lands`. Both say nothing of how many
links a path may go through, so that a route can be taken apart and put
together (`Enters.append`, `Enters.split`), and following a path is having a
route that is short enough (`entered_follow_iff`, `Lands.follow`,
`exists_lands_of_follow`).

# One route

Pieces have one route and one end (`Enters.unique`, `Lands.unique`), and what
leads to a directory does not lead to anything else (`Lands.not_enters`). So
a link is on the route that begins with it only once (`Enters.not_mem`,
`Lands.not_mem`): if it came again, the route from there would be the same
route and yet shorter.

# The same route in another tree

A tree that has the directories of another one and the links of a route lets
the route through (`Enters.of_same`, `Lands.of_same`).

# Calls

Where a path ends in a piece (`EndsIn`), a call that reads or writes it does
so at the end of the route, and fails if there is no route that is short
enough.
-/
import TaggedSource.Proofs.Entries

namespace TaggedSource.FileTree

variable {tree : FileTree}

/-- A piece that is looked up in a directory. -/
structure IsStep (piece : Text) : Prop where
  /-- It does not stay. -/
  ne_dot : piece ≠ ['.']
  /-- It does not lead up. -/
  ne_dots : piece ≠ ['.', '.']
  /-- The machine takes it. -/
  fits : Text.byteSize piece ≤ maxName

/-- Where the target of a link starts. -/
def linkStart (directory : Place) (target : Text) : Place :=
  if Path.isAbsolute target then [] else directory

-- ================================================== routes to directories

/-- Pieces lead from a directory to another one, through the links of a
route. -/
inductive Enters (tree : FileTree) : List Place → Place → List Text → Place → Prop where
  /-- No piece is left. -/
  | done {directory : Place} : Enters tree [] directory [] directory
  /-- A piece that stays. -/
  | dot {route : List Place} {directory last : Place} {rest : List Text}
      (h : Enters tree route directory rest last) : Enters tree route directory (['.'] :: rest) last
  /-- A piece that leads up. -/
  | dots {route : List Place} {directory last : Place} {rest : List Text}
      (h : Enters tree route directory.dropLast rest last) :
      Enters tree route directory (['.', '.'] :: rest) last
  /-- A piece that leads to a directory. -/
  | step {route : List Place} {directory last : Place} {piece : Text} {rest : List Text}
      (hpiece : IsStep piece) (hget : tree.get? (directory ++ [piece]) = some .directory)
      (h : Enters tree route (directory ++ [piece]) rest last) :
      Enters tree route directory (piece :: rest) last
  /-- A piece that leads to a link. -/
  | link {route : List Place} {directory last : Place} {piece target : Text} {rest : List Text}
      (hpiece : IsStep piece) (hget : tree.get? (directory ++ [piece]) = some (.link target))
      (h : Enters tree route (linkStart directory target) (Path.pieces target ++ rest) last) :
      Enters tree ((directory ++ [piece]) :: route) directory (piece :: rest) last

namespace Enters

variable {route route' : List Place} {directory last last' : Place} {pieces more : List Text}

theorem append {middle : Place} (h : tree.Enters route directory pieces middle)
    (h' : tree.Enters route' middle more last) :
    tree.Enters (route ++ route') directory (pieces ++ more) last := by
  induction h with
  | done => exact h'
  | dot _ ih => exact .dot (ih h')
  | dots _ ih => exact .dots (ih h')
  | step hpiece hget _ ih => exact .step hpiece hget (ih h')
  | link hpiece hget _ ih => exact .link hpiece hget (List.append_assoc _ _ more ▸ ih h')

theorem split (h : tree.Enters route directory (pieces ++ more) last) :
    ∃ front back middle, route = front ++ back ∧ tree.Enters front directory pieces middle ∧
      tree.Enters back middle more last := by
  generalize hall : pieces ++ more = all at h
  induction h generalizing pieces with
  | done =>
      obtain ⟨rfl, rfl⟩ := List.append_eq_nil_iff.1 hall
      exact ⟨[], [], _, rfl, .done, .done⟩
  | dot h ih =>
      cases pieces with
      | nil =>
          cases hall
          exact ⟨[], _, _, rfl, .done, .dot h⟩
      | cons piece pieces =>
          obtain ⟨rfl, hrest⟩ := List.cons.inj hall
          obtain ⟨front, back, middle, rfl, hfront, hback⟩ := ih hrest
          exact ⟨front, back, middle, rfl, .dot hfront, hback⟩
  | dots h ih =>
      cases pieces with
      | nil =>
          cases hall
          exact ⟨[], _, _, rfl, .done, .dots h⟩
      | cons piece pieces =>
          obtain ⟨rfl, hrest⟩ := List.cons.inj hall
          obtain ⟨front, back, middle, rfl, hfront, hback⟩ := ih hrest
          exact ⟨front, back, middle, rfl, .dots hfront, hback⟩
  | step hpiece hget h ih =>
      cases pieces with
      | nil =>
          cases hall
          exact ⟨[], _, _, rfl, .done, .step hpiece hget h⟩
      | cons piece pieces =>
          obtain ⟨rfl, hrest⟩ := List.cons.inj hall
          obtain ⟨front, back, middle, rfl, hfront, hback⟩ := ih hrest
          exact ⟨front, back, middle, rfl, .step hpiece hget hfront, hback⟩
  | link hpiece hget h ih =>
      cases pieces with
      | nil =>
          cases hall
          exact ⟨[], _, _, rfl, .done, .link hpiece hget h⟩
      | cons piece pieces =>
          obtain ⟨rfl, rfl⟩ := List.cons.inj hall
          obtain ⟨front, back, middle, rfl, hfront, hback⟩ := ih (List.append_assoc _ pieces more)
          exact ⟨_ :: front, back, middle, rfl, .link hpiece hget hfront, hback⟩

/-- Pieces have one route, and one end. -/
theorem unique (h : tree.Enters route directory pieces last)
    (h' : tree.Enters route' directory pieces last') : route = route' ∧ last = last' := by
  induction h generalizing route' with
  | done =>
      cases h'
      exact ⟨rfl, rfl⟩
  | dot _ ih =>
      cases h' with
      | dot h' => exact ih h'
      | step hpiece => exact absurd rfl hpiece.ne_dot
      | link hpiece => exact absurd rfl hpiece.ne_dot
  | dots _ ih =>
      cases h' with
      | dots h' => exact ih h'
      | step hpiece => exact absurd rfl hpiece.ne_dots
      | link hpiece => exact absurd rfl hpiece.ne_dots
  | step hpiece hget _ ih =>
      cases h' with
      | dot => exact absurd rfl hpiece.ne_dot
      | dots => exact absurd rfl hpiece.ne_dots
      | step _ _ h' => exact ih h'
      | link _ hget' => cases hget.symm.trans hget'
  | link hpiece hget _ ih =>
      cases h' with
      | dot => exact absurd rfl hpiece.ne_dot
      | dots => exact absurd rfl hpiece.ne_dots
      | step _ hget' => cases hget.symm.trans hget'
      | link _ hget' h' =>
          cases hget.symm.trans hget'
          obtain ⟨rfl, rfl⟩ := ih h'
          exact ⟨rfl, rfl⟩

theorem link_of_mem (h : tree.Enters route directory pieces last) {place : Place}
    (hmem : place ∈ route) : ∃ target, tree.get? place = some (.link target) := by
  induction h with
  | done => cases hmem
  | dot _ ih => exact ih hmem
  | dots _ ih => exact ih hmem
  | step _ _ _ ih => exact ih hmem
  | link _ hget _ ih =>
      rcases List.mem_cons.1 hmem with rfl | hmem
      · exact ⟨_, hget⟩
      · exact ih hmem

/-- Another tree with the directories and with the links of a route has the
route. -/
theorem of_same {tree' : FileTree} (h : tree.Enters route directory pieces last)
    (hdirectory : ∀ place, tree.get? place = some .directory → tree'.get? place = some .directory)
    (hlink : ∀ place ∈ route, tree'.get? place = tree.get? place) :
    tree'.Enters route directory pieces last := by
  induction h with
  | done => exact .done
  | dot _ ih => exact .dot (ih hlink)
  | dots _ ih => exact .dots (ih hlink)
  | step hpiece hget _ ih => exact .step hpiece (hdirectory _ hget) (ih hlink)
  | link hpiece hget _ ih =>
      obtain ⟨hhere, hlater⟩ := List.forall_mem_cons.1 hlink
      exact .link hpiece (hhere.trans hget) (ih hlater)

/-- Another tree that differs in one entry only, where no path goes on any
more, has the routes that do not go through it. -/
theorem blocked_iff {tree' : FileTree} {gone : Place}
    (hsame : ∀ other, other ≠ gone → tree'.get? other = tree.get? other)
    (hdirectory : tree.get? gone ≠ some .directory)
    (hgone : ∀ node, isWay node → tree'.get? gone ≠ some node) :
    tree'.Enters route directory pieces last ↔
      tree.Enters route directory pieces last ∧ gone ∉ route := by
  constructor
  · intro h
    have hmem : gone ∉ route := by
      intro hmem
      obtain ⟨target, hget⟩ := h.link_of_mem hmem
      exact hgone _ rfl hget
    refine ⟨h.of_same (fun place hget => ?_) (fun place hplace => ?_), hmem⟩
    · rw [← hsame place, hget]
      rintro rfl
      exact hgone _ rfl hget
    · exact (hsame place (ne_of_mem_of_not_mem hplace hmem)).symm
  · intro ⟨h, hmem⟩
    refine h.of_same (fun place hget => ?_) (fun place hplace => ?_)
    · rw [hsame place, hget]
      rintro rfl
      exact hdirectory hget
    · exact hsame place (ne_of_mem_of_not_mem hplace hmem)

/-- A link on a route leads to a directory, by a shorter route. -/
theorem of_mem (h : tree.Enters route directory pieces last) {upper : Place} {name : Name}
    (hmem : upper ++ [name] ∈ route) :
    ∃ later middle, tree.Enters ((upper ++ [name]) :: later) upper [name] middle ∧
      later.length < route.length := by
  induction h with
  | done => cases hmem
  | dot _ ih => exact ih hmem
  | dots _ ih => exact ih hmem
  | step _ _ _ ih => exact ih hmem
  | @link route directory last piece target rest hpiece hget h ih =>
      rcases List.mem_cons.1 hmem with hsame | hmem
      · obtain ⟨rfl, hname⟩ := List.append_inj' hsame rfl
        cases hname
        obtain ⟨front, back, middle, rfl, hfront, -⟩ := h.split
        refine ⟨front, middle, .link hpiece hget ?_, ?_⟩
        · rw [List.append_nil]
          exact hfront
        · rw [List.length_cons, List.length_append]
          omega
      · obtain ⟨later, middle, hlater, hlength⟩ := ih hmem
        exact ⟨later, middle, hlater, Nat.lt_succ_of_lt hlength⟩

/-- What is behind the link that a route begins with. -/
theorem tail {upper : Place} {name : Name}
    (h : tree.Enters ((upper ++ [name]) :: route) upper [name] last) :
    ∃ target, tree.get? (upper ++ [name]) = some (.link target) ∧
      tree.Enters route (linkStart upper target) (Path.pieces target) last := by
  generalize hall : (upper ++ [name]) :: route = all at h
  cases h with
  | dot h | dots h | step _ _ h =>
      cases h
      cases hall
  | @link _ _ _ _ target _ _ hget h =>
      cases hall
      rw [List.append_nil] at h
      exact ⟨target, hget, h⟩

/-- No link leads through itself. -/
theorem not_mem {upper : Place} {name : Name}
    (h : tree.Enters ((upper ++ [name]) :: route) upper [name] last) : upper ++ [name] ∉ route := by
  intro hmem
  obtain ⟨_, -, hrest⟩ := h.tail
  obtain ⟨later, middle, hlater, hlength⟩ := hrest.of_mem hmem
  obtain ⟨hsame, -⟩ := h.unique hlater
  cases hsame
  exact Nat.lt_irrefl _ hlength

/-- Pieces that stay can be left out. -/
theorem filter_iff : tree.Enters route directory (pieces.filter (· ≠ ['.'])) last ↔
    tree.Enters route directory pieces last := by
  have hkeep {piece : Text} (hdot : piece ≠ ['.']) (rest : List Text) :
      (piece :: rest).filter (· ≠ ['.']) = piece :: rest.filter (· ≠ ['.']) :=
    List.filter_cons_of_pos (by simpa using hdot)
  induction pieces generalizing route directory with
  | nil => exact Iff.rfl
  | cons piece rest ih =>
      by_cases hdot : piece = ['.']
      · subst hdot
        rw [List.filter_cons_of_neg (by simp)]
        refine ih.trans ⟨.dot, fun h => ?_⟩
        cases h with
        | dot h => exact h
        | step hpiece => exact absurd rfl hpiece.ne_dot
        | link hpiece => exact absurd rfl hpiece.ne_dot
      · rw [hkeep hdot]
        constructor
        · intro h
          cases h with
          | dot => exact absurd rfl hdot
          | dots h => exact .dots (ih.1 h)
          | step hpiece hget h => exact .step hpiece hget (ih.1 h)
          | link hpiece hget h =>
              obtain ⟨front, back, middle, rfl, hfront, hback⟩ := h.split
              exact .link hpiece hget (hfront.append (ih.1 hback))
        · intro h
          cases h with
          | dot => exact absurd rfl hdot
          | dots h => exact .dots (ih.2 h)
          | step hpiece hget h => exact .step hpiece hget (ih.2 h)
          | link hpiece hget h =>
              obtain ⟨front, back, middle, rfl, hfront, hback⟩ := h.split
              exact .link hpiece hget (hfront.append (ih.2 hback))

/-- Pieces are followed along their route, and what comes behind them from
there on with the links that are left. -/
theorem follow_append (h : tree.Enters route directory pieces last) {intent : Intent}
    {slash : Bool} {rest : List Text} (hrest : rest ≠ [] ∨ intent = .target ∧ slash = true)
    (links : Nat) :
    tree.follow intent (route.length + links) directory (pieces ++ rest) slash
      = tree.follow intent links last rest slash := by
  have hlast (pieces : List Text) : ¬ ((pieces ++ rest).isEmpty = true ∧ slash = false) := by
    rintro ⟨hnil, hslash⟩
    rcases hrest with hne | ⟨-, hslash'⟩
    · exact hne (List.append_eq_nil_iff.1 (List.isEmpty_iff.1 hnil)).2
    · simp [hslash] at hslash'
  have hwrite (pieces : List Text) :
      ¬ ((pieces ++ rest).isEmpty && slash && decide (intent = .write)) = true := by
    intro hwrite
    simp only [Bool.and_eq_true, List.isEmpty_iff, decide_eq_true_eq] at hwrite
    rcases hrest with hne | ⟨hintent, -⟩
    · exact hne (List.append_eq_nil_iff.1 hwrite.1.1).2
    · rw [hintent] at hwrite
      cases hwrite.2
  induction h with
  | done => rw [List.length_nil, Nat.zero_add, List.nil_append]
  | dot _ ih =>
      rw [← ih, List.cons_append]
      conv => lhs; unfold follow
      rw [if_pos rfl]
  | dots _ ih =>
      rw [← ih, List.cons_append]
      conv => lhs; unfold follow
      rw [if_neg (by decide), if_pos rfl]
  | step hpiece hget _ ih =>
      rw [← ih, List.cons_append]
      conv => lhs; unfold follow
      rw [if_neg hpiece.ne_dot, if_neg hpiece.ne_dots, if_neg (hwrite _),
        if_neg (Nat.not_lt.2 hpiece.fits)]
      simp only [hget]
  | @link route directory last piece target pieces hpiece hget _ ih =>
      have hentry : ¬ ((pieces ++ rest).isEmpty && !slash && decide (intent = .entry)) = true := by
        intro hentry
        simp only [Bool.and_eq_true, Bool.not_eq_true'] at hentry
        exact hlast pieces hentry.1
      have hslash : (slash || ((pieces ++ rest).isEmpty && Path.endsInSlash target)) = slash := by
        cases slash with
        | true => rfl
        | false =>
            have hne : (pieces ++ rest).isEmpty = false := by
              simpa using fun hnil => hlast pieces ⟨hnil, rfl⟩
            rw [hne]
            rfl
      rw [← ih, List.cons_append, List.length_cons, Nat.add_right_comm, List.append_assoc]
      conv => lhs; unfold follow
      rw [if_neg hpiece.ne_dot, if_neg hpiece.ne_dots, if_neg (hwrite _),
        if_neg (Nat.not_lt.2 hpiece.fits)]
      simp only [hget, if_neg hentry, hslash]
      rfl

end Enters

/-- A call that looks for what pieces lead to finds a directory exactly if
they have a route there on which there are not too many links. -/
theorem follow_directory_iff {links : Nat} {directory last : Place} {pieces : List Text}
    {slash : Bool} :
    tree.follow .target links directory pieces slash = .ok (.node last .directory) ↔
      ∃ route, route.length ≤ links ∧ tree.Enters route directory pieces last := by
  constructor
  · intro h
    fun_induction FileTree.follow tree .target links directory pieces slash with
    | case1 links directory slash =>
        cases h
        exact ⟨[], Nat.zero_le _, .done⟩
    | case2 links directory slash rest ih =>
        obtain ⟨route, hlength, hroute⟩ := ih h
        exact ⟨route, hlength, .dot hroute⟩
    | case3 links directory slash rest hdot ih =>
        obtain ⟨route, hlength, hroute⟩ := ih h
        exact ⟨route, hlength, .dots hroute⟩
    | case4 => cases h
    | case5 => cases h
    | case6 => cases h
    | case7 => cases h
    | case8 links directory slash piece rest hdot hdots hwrite hlong place hget ih =>
        obtain ⟨route, hlength, hroute⟩ := ih h
        exact ⟨route, hlength, .step ⟨hdot, hdots, Nat.not_lt.1 hlong⟩ hget hroute⟩
    | case9 => simp at h
    | case10 => cases h
    | case11 => simp at h
    | case12 => cases h
    | case13 directory slash piece rest hdot hdots hwrite hlong place target hget hentry links ih =>
        obtain ⟨route, hlength, hroute⟩ := ih h
        exact ⟨place :: route, Nat.succ_le_succ hlength,
          .link ⟨hdot, hdots, Nat.not_lt.1 hlong⟩ hget hroute⟩
  · rintro ⟨route, hlength, hroute⟩
    induction hroute generalizing links slash with
    | done => rw [follow]
    | dot _ ih =>
        unfold follow
        rw [if_pos rfl]
        exact ih hlength
    | dots _ ih =>
        unfold follow
        rw [if_neg (by decide), if_pos rfl]
        exact ih hlength
    | step hpiece hget _ ih =>
        unfold follow
        rw [if_neg hpiece.ne_dot, if_neg hpiece.ne_dots, if_neg (by simp),
          if_neg (Nat.not_lt.2 hpiece.fits)]
        simp only [hget]
        exact ih hlength
    | link hpiece hget _ ih =>
        obtain ⟨left, rfl⟩ : ∃ left, links = left + 1 :=
          Nat.exists_eq_add_of_le' (Nat.le_trans (Nat.le_add_left 1 _) hlength)
        unfold follow
        rw [if_neg hpiece.ne_dot, if_neg hpiece.ne_dots, if_neg (by simp),
          if_neg (Nat.not_lt.2 hpiece.fits)]
        simp only [hget, if_neg (show ¬ (_ && _ && decide (Intent.target = .entry)) = true by simp)]
        exact ih (Nat.le_of_succ_le_succ hlength)

/-- Pieces lead to a directory exactly if they have a route there on which
there are not too many links. -/
theorem entered_follow_iff {links : Nat} {directory last : Place} {pieces : List Text} :
    entered (tree.follow .target links directory pieces true) = .ok last ↔
      ∃ route, route.length ≤ links ∧ tree.Enters route directory pieces last := by
  have hroutes : tree.follow .target links directory pieces true = .ok (.node last .directory) ↔ _ :=
    follow_directory_iff
  rw [← hroutes]
  cases hfollow : tree.follow .target links directory pieces true with
  | error fault => simp [entered]
  | ok target =>
      cases target with
      | vacant => simp [entered]
      | node place node =>
          -- a slash at the end only lets a directory through
          have hnode : node = .directory :=
            Decidable.byContradiction fun hne => absurd (follow_node hfollow hne).1 (by simp)
          simp [entered, hnode]

-- ======================================================== routes to files

/-- Pieces and one more lead from a directory to a place where there is a
file or nothing, through the links of a route. Where the last piece is a
link, its target does not ask for a directory. -/
inductive Lands (tree : FileTree) :
    List Place → Place → List Text → Text → Place → Prop where
  /-- The last piece is no link. -/
  | here {route : List Place} {directory last : Place} {front : List Text} {piece : Text}
      (h : tree.Enters route directory front last) (hpiece : IsStep piece)
      (hget : ∀ node, isWay node → tree.get? (last ++ [piece]) ≠ some node) :
      Lands tree route directory front piece (last ++ [piece])
  /-- The last piece is a link. -/
  | link {route route' : List Place} {directory last place : Place} {front front' : List Text}
      {piece piece' target : Text} (h : tree.Enters route directory front last)
      (hpiece : IsStep piece) (hget : tree.get? (last ++ [piece]) = some (.link target))
      (hslash : Path.endsInSlash target = false) (hpieces : Path.pieces target = front' ++ [piece'])
      (hrest : Lands tree route' (linkStart last target) front' piece' place) :
      Lands tree (route ++ (last ++ [piece]) :: route') directory front piece place

namespace Lands

variable {route route' : List Place} {directory last place place' : Place} {front : List Text}
  {piece : Text}

theorem append (h : tree.Enters route directory front last)
    (h' : tree.Lands route' last [] piece place) :
    tree.Lands (route ++ route') directory front piece place := by
  cases h' with
  | here hdone hpiece hget =>
      cases hdone
      rw [List.append_nil]
      exact .here h hpiece hget
  | link hdone hpiece hget hslash hpieces hrest =>
      cases hdone
      exact .link h hpiece hget hslash hpieces hrest

theorem split (h : tree.Lands route directory front piece place) :
    ∃ before after middle, route = before ++ after ∧ tree.Enters before directory front middle ∧
      tree.Lands after middle [] piece place := by
  cases h with
  | here h hpiece hget => exact ⟨_, [], _, (List.append_nil _).symm, h, .here .done hpiece hget⟩
  | link h hpiece hget hslash hpieces hrest =>
      exact ⟨_, _, _, rfl, h, .link .done hpiece hget hslash hpieces hrest⟩

/-- What leads to a file or to nothing does not lead to a directory. -/
theorem not_enters (h : tree.Lands route directory front piece place) :
    ¬ tree.Enters route' directory (front ++ [piece]) last := by
  induction h generalizing route' with
  | here h hpiece hget =>
      intro henters
      obtain ⟨_, _, _, -, hfront, hpiece'⟩ := henters.split
      obtain ⟨-, rfl⟩ := h.unique hfront
      cases hpiece' with
      | dot => exact hpiece.ne_dot rfl
      | dots => exact hpiece.ne_dots rfl
      | step _ hget' => exact hget _ rfl hget'
      | link _ hget' => exact hget _ rfl hget'
  | link h hpiece hget _ hpieces _ ih =>
      intro henters
      obtain ⟨_, _, _, -, hfront, hpiece'⟩ := henters.split
      obtain ⟨-, rfl⟩ := h.unique hfront
      cases hpiece' with
      | dot => exact hpiece.ne_dot rfl
      | dots => exact hpiece.ne_dots rfl
      | step _ hget' => cases hget.symm.trans hget'
      | link _ hget' henters =>
          cases hget.symm.trans hget'
          rw [List.append_nil, hpieces] at henters
          exact ih henters

/-- Pieces have one route, and one end. -/
theorem unique (h : tree.Lands route directory front piece place)
    (h' : tree.Lands route' directory front piece place') : route = route' ∧ place = place' := by
  induction h generalizing route' with
  | here h _ hget =>
      cases h' with
      | here h' =>
          obtain ⟨rfl, rfl⟩ := h.unique h'
          exact ⟨rfl, rfl⟩
      | link h' _ hget' =>
          obtain ⟨-, rfl⟩ := h.unique h'
          exact absurd hget' (hget _ rfl)
  | link h _ hget _ hpieces _ ih =>
      cases h' with
      | here h' _ hget' =>
          obtain ⟨-, rfl⟩ := h.unique h'
          exact absurd hget (hget' _ rfl)
      | link h' _ hget' _ hpieces' hrest =>
          obtain ⟨rfl, rfl⟩ := h.unique h'
          cases hget.symm.trans hget'
          obtain ⟨rfl, hpiece⟩ := List.append_inj' (hpieces.symm.trans hpieces') rfl
          cases hpiece
          obtain ⟨rfl, rfl⟩ := ih hrest
          exact ⟨rfl, rfl⟩

theorem link_of_mem (h : tree.Lands route directory front piece place) {other : Place}
    (hmem : other ∈ route) : ∃ target, tree.get? other = some (.link target) := by
  induction h with
  | here h => exact h.link_of_mem hmem
  | link h _ hget _ _ _ ih =>
      rcases List.mem_append.1 hmem with hmem | hmem
      · exact h.link_of_mem hmem
      · rcases List.mem_cons.1 hmem with rfl | hmem
        · exact ⟨_, hget⟩
        · exact ih hmem

/-- At the end there is a file or nothing. -/
theorem not_isWay (h : tree.Lands route directory front piece place) :
    place ≠ [] ∧ ∀ node, isWay node → tree.get? place ≠ some node := by
  induction h with
  | here _ _ hget => exact ⟨by simp, hget⟩
  | link _ _ _ _ _ _ ih => exact ih

/-- Another tree with the directories and with the links of a route, and
with a file or nothing at its end, has the route. -/
theorem of_same {tree' : FileTree} (h : tree.Lands route directory front piece place)
    (hdirectory : ∀ other, tree.get? other = some .directory → tree'.get? other = some .directory)
    (hlink : ∀ other ∈ route, tree'.get? other = tree.get? other)
    (hend : ∀ node, isWay node → tree'.get? place ≠ some node) :
    tree'.Lands route directory front piece place := by
  induction h with
  | here h hpiece _ => exact .here (h.of_same hdirectory hlink) hpiece hend
  | link h hpiece hget hslash hpieces _ ih =>
      obtain ⟨hfront, hback⟩ := List.forall_mem_append.1 hlink
      obtain ⟨hhere, hlater⟩ := List.forall_mem_cons.1 hback
      exact .link (h.of_same hdirectory hfront) hpiece (hhere.trans hget) hslash hpieces
        (ih hlater hend)

/-- Without an entry that is no directory a tree has the routes that do not
go through it. -/
theorem erase_iff {gone : Place} (hgone : gone ≠ [])
    (hdirectory : tree.get? gone ≠ some .directory) (hplace : place ≠ gone) :
    (tree.erase gone).Lands route directory front piece place ↔
      tree.Lands route directory front piece place ∧ gone ∉ route := by
  have hget {other : Place} (hother : other ≠ gone) :
      (tree.erase gone).get? other = tree.get? other := by
    rw [get?_erase tree hgone, if_neg hother]
  have hnone : (tree.erase gone).get? gone = none := by
    rw [get?_erase tree hgone, if_pos rfl]
  constructor
  · intro h
    have hmem : gone ∉ route := by
      intro hmem
      obtain ⟨target, hlink⟩ := h.link_of_mem hmem
      cases hnone.symm.trans hlink
    refine ⟨h.of_same (fun other hother => ?_) (fun other hother => ?_) fun node hway hnode => ?_,
      hmem⟩
    · rw [← hget, hother]
      rintro rfl
      cases hnone.symm.trans hother
    · exact (hget (ne_of_mem_of_not_mem hother hmem)).symm
    · exact h.not_isWay.2 node hway ((hget hplace).trans hnode)
  · intro ⟨h, hmem⟩
    refine h.of_same (fun other hother => ?_) (fun other hother => ?_) fun node hway hnode => ?_
    · rw [hget, hother]
      rintro rfl
      exact hdirectory hother
    · exact hget (ne_of_mem_of_not_mem hother hmem)
    · exact h.not_isWay.2 node hway ((hget hplace).symm.trans hnode)

/-- A file that is written at the end of a route leaves the route as it was. -/
theorem put (h : tree.Lands route directory front piece place) (bytes : Bytes) (mode : Nat) :
    (tree.put place (.file bytes mode)).Lands route directory front piece place := by
  obtain ⟨hplace, hway⟩ := h.not_isWay
  have hways : (tree.put place (.file bytes mode)).HasWaysOf tree := hasWaysOf_put hplace hway
  refine h.of_same (fun other hget => hways other _ rfl hget) (fun other hmem => ?_)
    fun node hnode hget => ?_
  · obtain ⟨target, hget⟩ := h.link_of_mem hmem
    rw [hget, hways other _ rfl hget]
  · rw [get?_put tree hplace, if_pos rfl] at hget
    cases hget
    cases hnode

/-- Pieces that stay can be left out. -/
theorem filter_iff : tree.Lands route directory (front.filter (· ≠ ['.'])) piece place ↔
    tree.Lands route directory front piece place := by
  constructor
  · intro h
    obtain ⟨before, after, middle, rfl, henters, hlands⟩ := h.split
    exact .append (Enters.filter_iff.1 henters) hlands
  · intro h
    obtain ⟨before, after, middle, rfl, henters, hlands⟩ := h.split
    exact .append (Enters.filter_iff.2 henters) hlands

/-- A link on a route leads to a directory, or to the end of the route, by a
shorter one. -/
theorem of_mem (h : tree.Lands route directory front piece place) {upper : Place} {name : Name}
    (hmem : upper ++ [name] ∈ route) :
    (∃ later middle, tree.Enters later upper [name] middle) ∨
      ∃ later, tree.Lands ((upper ++ [name]) :: later) upper [] name place ∧
        later.length < route.length := by
  induction h with
  | here h _ _ =>
      obtain ⟨later, middle, hlater, -⟩ := h.of_mem hmem
      exact .inl ⟨_, middle, hlater⟩
  | @link route route' directory last place front front' piece piece' target h hpiece hget hslash
      hpieces hrest ih =>
      rcases List.mem_append.1 hmem with hmem | hmem
      · obtain ⟨later, middle, hlater, -⟩ := h.of_mem hmem
        exact .inl ⟨_, middle, hlater⟩
      have hlength : route'.length < (route ++ (last ++ [piece]) :: route').length := by
        rw [List.length_append, List.length_cons]
        omega
      rcases List.mem_cons.1 hmem with hsame | hmem
      · obtain ⟨rfl, hname⟩ := List.append_inj' hsame rfl
        cases hname
        exact .inr ⟨route', .link .done hpiece hget hslash hpieces hrest, hlength⟩
      · rcases ih hmem with hdirectory | ⟨later, hlater, hlength'⟩
        · exact .inl hdirectory
        · exact .inr ⟨later, hlater, Nat.lt_trans hlength' hlength⟩

/-- A piece is found where it is looked up, or it is a link that the route
begins with. -/
theorem cases_piece (h : tree.Lands route directory [] piece place) :
    IsStep piece ∧ (route = [] ∧ place = directory ++ [piece] ∨
      ∃ later target front' piece', route = (directory ++ [piece]) :: later ∧
        tree.get? (directory ++ [piece]) = some (.link target) ∧
        Path.endsInSlash target = false ∧ Path.pieces target = front' ++ [piece'] ∧
        tree.Lands later (linkStart directory target) front' piece' place) := by
  cases h with
  | here hdone hpiece _ =>
      cases hdone
      exact ⟨hpiece, .inl ⟨rfl, rfl⟩⟩
  | link hdone hpiece hget hslash hpieces hrest =>
      cases hdone
      exact ⟨hpiece, .inr ⟨_, _, _, _, rfl, hget, hslash, hpieces, hrest⟩⟩

/-- No link leads through itself. -/
theorem not_mem {upper : Place} {name : Name}
    (h : tree.Lands ((upper ++ [name]) :: route) upper [] name place) : upper ++ [name] ∉ route := by
  intro hmem
  obtain ⟨-, ⟨hnil, -⟩ | ⟨later, target, front', piece', hroute, -, -, -, hrest⟩⟩ := h.cases_piece
  · cases hnil
  cases hroute
  rcases hrest.of_mem hmem with ⟨later, middle, hdirectory⟩ | ⟨later, hlater, hlength⟩
  · exact h.not_enters hdirectory
  · obtain ⟨hsame, -⟩ := h.unique hlater
    cases hsame
    exact Nat.lt_irrefl _ hlength

/-- A route that is short enough is followed to its end. -/
theorem follow (h : tree.Lands route directory front piece place) {intent : Intent}
    (hintent : intent ≠ .entry) (links : Nat) :
    ∃ last name, place = last ++ [name] ∧
      tree.follow intent (route.length + links) directory (front ++ [piece]) false
        = .ok (tree.targetIn last name) := by
  induction h generalizing links with
  | @here route directory last front piece h hpiece hget =>
      refine ⟨last, piece, rfl, ?_⟩
      rw [h.follow_append (.inl (by simp))]
      exact follow_name hpiece.ne_dot hpiece.ne_dots hpiece.fits
        (.inr fun target => hget (.link target) rfl)
  | @link route route' directory last place front front' piece piece' target h hpiece hget hslash
      hpieces _ ih =>
      obtain ⟨middle, name, rfl, hfollow⟩ := ih links
      refine ⟨middle, name, rfl, ?_⟩
      rw [List.length_append, Nat.add_assoc, h.follow_append (.inl (by simp)), ← hfollow, ← hpieces,
        List.length_cons, Nat.add_right_comm]
      conv => lhs; unfold FileTree.follow
      rw [if_neg hpiece.ne_dot, if_neg hpiece.ne_dots, if_neg (by simp),
        if_neg (Nat.not_lt.2 hpiece.fits)]
      have hentry : ¬ (([] : List Text).isEmpty && !false && decide (intent = .entry)) = true := by
        simpa using hintent
      simp only [hget, if_neg hentry, hslash, List.append_nil, Bool.and_false, Bool.or_false]
      rfl

end Lands

/-- Where a call that writes finds nothing, it was not asked for a
directory. -/
theorem follow_vacant {links : Nat} {directory upper : Place} {pieces : List Text} {slash : Bool}
    {name : Name}
    (h : tree.follow .write links directory pieces slash = .ok (.vacant upper name)) :
    slash = false := by
  fun_induction FileTree.follow tree .write links directory pieces slash with
  | case1 => cases h
  | case2 links directory slash rest ih => exact ih h
  | case3 links directory slash rest hdot ih => exact ih h
  | case4 => cases h
  | case5 => cases h
  | case6 links directory slash piece rest hdot hdots hwrite hlong place hget hrest =>
      simpa [hrest] using hwrite
  | case7 => cases h
  | case8 links directory slash piece rest hdot hdots hwrite hlong place hget ih => exact ih h
  | case9 => cases h
  | case10 => cases h
  | case11 => cases h
  | case12 => cases h
  | case13 directory slash piece rest hdot hdots hwrite hlong place target hget hentry links ih =>
      have hboth := ih h
      rw [Bool.or_eq_false_iff] at hboth
      exact hboth.1

/-- The place of a target. -/
def Target.place : Target → Place
  | .node place _ => place
  | .vacant directory name => directory ++ [name]

-- ================================================== from calls to routes

/-- The pieces in front of the last one lead to a directory, and the last
one is looked up there with the links that are left. -/
theorem exists_enters_of_follow {intent : Intent} {links : Nat} {directory : Place}
    {front : List Text} {piece : Text} {slash : Bool} {target : Target}
    (h : tree.follow intent links directory (front ++ [piece]) slash = .ok target) :
    ∃ route last left, links = route.length + left ∧ tree.Enters route directory front last ∧
      tree.follow intent left last [piece] slash = .ok target := by
  obtain ⟨_, hconcat⟩ := follow_concat tree intent links directory front piece slash
  cases hentered : entered (tree.follow .target links directory front true) with
  | error fault =>
      rw [hconcat, hentered] at h
      cases h
  | ok last =>
      obtain ⟨route, hlength, hroute⟩ := entered_follow_iff.1 hentered
      obtain ⟨left, rfl⟩ := Nat.exists_eq_add_of_le hlength
      rw [hroute.follow_append (.inl (by simp))] at h
      exact ⟨route, last, left, rfl, hroute, h⟩

section
variable {intent : Intent} {links : Nat} {directory : Place} {piece : Text} {target : Target}
  (hintent : intent ≠ .entry) (hend : ∀ place, target ≠ .node place .directory)
  (hvacant : intent = .write ∨ ∃ place node, target = .node place node)
include hintent hend hvacant

/-- A last piece that does not lead to a directory is found where it is
looked up, or is a link to what is found. -/
theorem follow_last_cases (h : tree.follow intent links directory [piece] false = .ok target) :
    IsStep piece ∧ (target.place = directory ++ [piece] ∧
        (∀ node, isWay node → tree.get? (directory ++ [piece]) ≠ some node) ∨
      ∃ next left, links = left + 1 ∧ tree.get? (directory ++ [piece]) = some (.link next) ∧
        Path.endsInSlash next = false ∧
        tree.follow intent left (linkStart directory next) (Path.pieces next) false = .ok target) := by
  have hstays {place : Place} {links : Nat} (h : tree.follow intent links place [] false = .ok target) :
      False := by
    rw [follow] at h
    exact hend place (Except.ok.inj h).symm
  unfold follow at h
  split at h
  · exact (hstays h).elim
  next hdot =>
  split at h
  · exact (hstays h).elim
  next hdots =>
  rw [if_neg (by simp)] at h
  split at h
  · cases h
  next hlong =>
  refine ⟨⟨hdot, hdots, Nat.not_lt.1 hlong⟩, ?_⟩
  cases hget : tree.get? (directory ++ [piece]) with
  | none =>
      simp only [hget] at h
      obtain rfl : .vacant directory piece = target := by simpa using h
      exact .inl ⟨rfl, by simp⟩
  | some node =>
      cases node with
      | file content mode =>
          simp only [hget] at h
          obtain rfl : .node (directory ++ [piece]) (.file content mode) = target := by simpa using h
          refine .inl ⟨rfl, fun node hway hnode => ?_⟩
          cases hnode
          cases hway
      | directory =>
          simp only [hget] at h
          exact (hstays h).elim
      | link next =>
          have hentry : ¬ (([] : List Text).isEmpty && !false && decide (intent = .entry)) = true := by
            simpa using hintent
          simp only [hget, if_neg hentry, List.append_nil] at h
          cases links with
          | zero => cases h
          | succ left =>
              -- the end is no directory, so the target of the link asks for none
              have hslash : (false || (([] : List Text).isEmpty && Path.endsInSlash next)) = false := by
                cases target with
                | node place node =>
                    exact (follow_node h fun hnode => hend place (by rw [hnode])).1
                | vacant =>
                    obtain rfl := hvacant.resolve_right (by simp)
                    exact follow_vacant h
              rw [hslash] at h
              exact .inr ⟨next, left, rfl, rfl, by simpa using hslash, h⟩

/-- What a path leads to and is no directory lies at the end of a route. -/
theorem exists_lands_of_follow {front : List Text}
    (h : tree.follow intent links directory (front ++ [piece]) false = .ok target) :
    ∃ route, route.length ≤ links ∧ tree.Lands route directory front piece target.place := by
  induction links using Nat.strongRecOn generalizing directory front piece with
  | ind links ih =>
  obtain ⟨route, last, left, rfl, hroute, hlast⟩ := exists_enters_of_follow h
  obtain ⟨hpiece, ⟨hplace, hget⟩ | ⟨next, left, rfl, hget, hslash, hnext⟩⟩ :=
    follow_last_cases hintent hend hvacant hlast
  · rw [hplace]
    exact ⟨route, Nat.le_add_right _ _, .here hroute hpiece hget⟩
  · rcases List.eq_nil_or_concat (Path.pieces next) with hnil | ⟨front', piece', hpieces⟩
    · rw [hnil, follow] at hnext
      exact absurd (Except.ok.inj hnext).symm (hend _)
    · rw [List.concat_eq_append] at hpieces
      rw [hpieces] at hnext
      obtain ⟨route', hlength, hroute'⟩ := ih left (by omega) hnext
      refine ⟨route ++ (last ++ [piece]) :: route', ?_,
        .link hroute hpiece hget hslash hpieces hroute'⟩
      rw [List.length_append, List.length_cons]
      omega

end

-- ============================================== calls along their routes

/-- The permission bits of the file that is written at a place. -/
def modeAt (tree : FileTree) (place : Place) : Nat :=
  match tree.get? place with
  | some (.file _ mode) => mode
  | _ => newFileMode

/-- A directory is listed at the end of its route. -/
theorem readDirectory_eq_ok_iff {path : Text} {entries : List (Name × Node)} :
    tree.readDirectory path = .ok entries ↔ refusal? path = none ∧ ∃ route place,
      route.length ≤ maxLinks ∧ tree.Enters route (tree.start path) (Path.pieces path) place ∧
      tree.children place = entries := by
  have hlist : tree.readDirectory path = .ok entries ↔ ∃ place,
      tree.locate .target path = .ok (.node place .directory) ∧ tree.children place = entries := by
    rw [readDirectory]
    split
    · next hlocate => simp [hlocate]
    · next hlocate => simp [hlocate]
    · next hlocate => simp [hlocate]
    · next place node hnode hlocate =>
      simp only [hlocate, reduceCtorEq, false_iff, not_exists]
      rintro _ ⟨heq, -⟩
      cases heq
      exact hnode rfl
  rw [hlist]
  constructor
  · rintro ⟨place, hlocate, hentries⟩
    rw [locate] at hlocate
    split at hlocate
    · cases hlocate
    · next hrefusal =>
      obtain ⟨route, hlength, hroute⟩ := follow_directory_iff.1 hlocate
      exact ⟨hrefusal, route, place, hlength, hroute, hentries⟩
  · rintro ⟨hrefusal, route, place, hlength, hroute, hentries⟩
    refine ⟨place, ?_, hentries⟩
    rw [locate, hrefusal]
    exact follow_directory_iff.2 ⟨route, hlength, hroute⟩

/-- A path that the machine takes and that ends in a piece behind some
steps. -/
structure EndsIn (path : Text) (steps : List Text) (piece : Text) : Prop where
  /-- The machine takes it. -/
  taken : refusal? path = none
  /-- In front of the last piece there are the steps, and pieces that stay. -/
  pieces : ∃ front, Path.pieces path = front ++ [piece] ∧ front.filter (· ≠ ['.']) = steps
  /-- No directory is asked for. -/
  no_slash : Path.endsInSlash path = false

namespace EntryIn

variable {path : Text} {directory : Place} {name : Name} (h : tree.EntryIn path directory name)
include h

theorem endsIn : EndsIn path ((Path.pieces path).dropLast.filter (· ≠ ['.'])) name :=
  ⟨(splitLast_eq_ok.1 h.split).1, ⟨_, h.pieces_eq, rfl⟩, h.no_slash⟩

theorem isStep : IsStep name := ⟨h.ne_dot, h.ne_dots, h.fits⟩

end EntryIn

namespace EndsIn

variable {path : Text} {steps : List Text} {piece : Text} (hpath : EndsIn path steps piece)
include hpath

/-- The steps lead to the directory of the path's entry. -/
theorem exists_enters {directory : Place} (h : tree.EntryIn path directory piece) :
    ∃ route, tree.Enters route (tree.start path) steps directory := by
  obtain ⟨front, hpieces, rfl⟩ := hpath.pieces
  obtain ⟨-, -, hentered⟩ := splitLast_eq_ok.1 h.split
  rw [hpieces, List.dropLast_concat] at hentered
  obtain ⟨route, -, hroute⟩ := entered_follow_iff.1 hentered
  exact ⟨route, Enters.filter_iff.2 hroute⟩

/-- Another name beside the last piece is behind the same steps. -/
theorem sibling {other : Text} (hpiece : Path.IsName piece) (hother : Path.IsName other)
    (htaken : refusal? (Path.sibling path other) = none) :
    EndsIn (Path.sibling path other) steps other ∧
      Path.isAbsolute (Path.sibling path other) = Path.isAbsolute path := by
  obtain ⟨front, hpieces, rfl⟩ := hpath.pieces
  obtain ⟨base, hsibling, hsteps, habsolute⟩ :=
    Path.sibling_of_pieces hpiece hpieces hpath.no_slash other
  rw [hsibling] at htaken ⊢
  exact ⟨⟨htaken, ⟨_, Path.pieces_join hother, hsteps⟩, Path.endsInSlash_join hother⟩,
    (Path.isAbsolute_join hother).trans habsolute⟩

private theorem locate_of_lands {route : List Place} {place : Place}
    (h : tree.Lands route (tree.start path) steps piece place) (hlength : route.length ≤ maxLinks)
    (intent : Intent) (hintent : intent ≠ .entry) :
    ∃ directory name, place = directory ++ [name] ∧
      tree.locate intent path = .ok (tree.targetIn directory name) := by
  obtain ⟨front, hpieces, rfl⟩ := hpath.pieces
  obtain ⟨links, hlinks⟩ := Nat.exists_eq_add_of_le hlength
  obtain ⟨directory, name, hplace, hfollow⟩ := (Lands.filter_iff.1 h).follow hintent links
  refine ⟨directory, name, hplace, ?_⟩
  rw [locate, hpath.taken]
  simp only
  rw [hpieces, hpath.no_slash, hlinks, hfollow]

/-- What the path leads to and is no directory lies at the end of a route. -/
theorem exists_lands_of_locate {intent : Intent} {target : Target} (hintent : intent ≠ .entry)
    (hend : ∀ place, target ≠ .node place .directory)
    (hvacant : intent = .write ∨ ∃ place node, target = .node place node)
    (h : tree.locate intent path = .ok target) :
    ∃ route, route.length ≤ maxLinks ∧
      tree.Lands route (tree.start path) steps piece target.place := by
  obtain ⟨front, hpieces, rfl⟩ := hpath.pieces
  rw [locate, hpath.taken] at h
  simp only at h
  rw [hpieces, hpath.no_slash] at h
  obtain ⟨route, hlength, hlands⟩ := exists_lands_of_follow hintent hend hvacant h
  exact ⟨route, hlength, Lands.filter_iff.2 hlands⟩

/-- A path is read at the end of its route. -/
theorem readBytes_eq_ok_iff {bytes : Bytes} : tree.readBytes path = .ok bytes ↔
    ∃ route place mode, route.length ≤ maxLinks ∧
      tree.Lands route (tree.start path) steps piece place ∧
      tree.get? place = some (.file bytes mode) := by
  constructor
  · intro h
    rw [readBytes] at h
    split at h
    · cases h
    · next content mode hlook =>
      cases h
      obtain ⟨place, hlocate⟩ := locate_of_lookAt hlook
      obtain ⟨route, hlength, hlands⟩ :=
        hpath.exists_lands_of_locate (by simp) (by simp) (.inr ⟨place, _, rfl⟩) hlocate
      rw [locate, hpath.taken] at hlocate
      exact ⟨route, place, mode, hlength, hlands, (follow_node hlocate (by simp)).2.1⟩
    · cases h
  · rintro ⟨route, place, mode, hlength, hlands, hget⟩
    obtain ⟨directory, name, rfl, hlocate⟩ :=
      hpath.locate_of_lands hlands hlength .target (by simp)
    rw [targetIn_of_some hget] at hlocate
    rw [readBytes, lookAt, hlocate]

/-- A path is written at the end of its route. -/
theorem writeBytes_of_lands {route : List Place} {place : Place}
    (h : tree.Lands route (tree.start path) steps piece place) (hlength : route.length ≤ maxLinks)
    (bytes : Bytes) :
    tree.writeBytes path bytes = .ok (tree.put place (.file bytes (tree.modeAt place))) := by
  obtain ⟨directory, name, rfl, hlocate⟩ := hpath.locate_of_lands h hlength .write (by simp)
  rw [writeBytes, hlocate, modeAt]
  cases hget : tree.get? (directory ++ [name]) with
  | none => rw [targetIn_of_none hget]
  | some node =>
      rw [targetIn_of_some hget]
      cases node with
      | file => rfl
      | directory => exact absurd hget (h.not_isWay.2 _ rfl)
      | link => exact absurd hget (h.not_isWay.2 _ rfl)

theorem exists_lands_of_writeBytes {bytes : Bytes} {written : FileTree}
    (h : tree.writeBytes path bytes = .ok written) :
    ∃ route place, route.length ≤ maxLinks ∧
      tree.Lands route (tree.start path) steps piece place ∧
      written = tree.put place (.file bytes (tree.modeAt place)) := by
  have hlands : ∃ route place, route.length ≤ maxLinks ∧
      tree.Lands route (tree.start path) steps piece place := by
    rw [writeBytes] at h
    split at h
    · cases h
    · next directory name hlocate =>
      obtain ⟨route, hlength, hlands⟩ :=
        hpath.exists_lands_of_locate (by simp) (by simp) (.inl rfl) hlocate
      exact ⟨route, _, hlength, hlands⟩
    · next place content mode hlocate =>
      obtain ⟨route, hlength, hlands⟩ :=
        hpath.exists_lands_of_locate (by simp) (by simp) (.inl rfl) hlocate
      exact ⟨route, _, hlength, hlands⟩
    · cases h
  obtain ⟨route, place, hlength, hlands⟩ := hlands
  rw [hpath.writeBytes_of_lands hlands hlength] at h
  exact ⟨route, place, hlength, hlands, (Except.ok.inj h).symm⟩

/-- The permission bits of what was written are set at the end of the same
route. -/
theorem setModeIfAny_put_of_lands {route : List Place} {place : Place}
    (h : tree.Lands route (tree.start path) steps piece place) (hlength : route.length ≤ maxLinks)
    (bytes : Bytes) (mode : Nat) (given : Option Nat) :
    (tree.put place (.file bytes mode)).setModeIfAny path given
      = .ok (tree.put place (.file bytes (given.getD mode))) := by
  cases given with
  | none => rfl
  | some other =>
      obtain ⟨directory, name, hplace, hlocate⟩ :=
        hpath.locate_of_lands (h.put bytes mode) hlength .target (by simp)
      have hget : (tree.put place (.file bytes mode)).get? (directory ++ [name])
          = some (.file bytes mode) := by
        rw [get?_put tree h.not_isWay.1, if_pos hplace.symm]
      rw [setModeIfAny, setMode, hlocate, targetIn_of_some hget]
      simp only
      rw [← hplace, put_put]
      rfl

end EndsIn

-- ============================================== a path past its own entry

namespace EntryIn

variable {path : Text} {directory : Place} {name : Name} (h : tree.EntryIn path directory name)
include h

/-- The path has its entry, in any tree, where the pieces in front of the
name lead. -/
theorem iff_exists_enters {tree' : FileTree} {directory' : Place} :
    tree'.EntryIn path directory' name ↔ ∃ route, route.length ≤ maxLinks ∧
      tree'.Enters route (tree'.start path) (Path.pieces path).dropLast directory' := by
  obtain ⟨hrefusal, hlast, -⟩ := splitLast_eq_ok.1 h.split
  rw [← entered_follow_iff]
  constructor
  · intro h'
    exact (splitLast_eq_ok.1 h'.split).2.2
  · intro hentered
    exact ⟨splitLast_eq_ok.2 ⟨hrefusal, hlast, hentered⟩, h.ne_dot, h.ne_dots, h.fits, h.no_slash⟩

/-- A path that leads to an entry or to where one would be does so by the
pieces in front of its name. -/
theorem exists_of_locate {tree' : FileTree} {target : Target}
    (htarget : tree'.locate .entry path = .ok target) :
    ∃ directory', tree'.EntryIn path directory' name := by
  obtain ⟨hrefusal, -, -⟩ := splitLast_eq_ok.1 h.split
  rw [FileTree.locate, hrefusal] at htarget
  simp only at htarget
  rw [h.pieces_eq] at htarget
  obtain ⟨route, directory', left, hlinks, hroute, -⟩ := exists_enters_of_follow htarget
  exact ⟨directory', h.iff_exists_enters.2
    ⟨route, Nat.le.intro hlinks.symm, hroute⟩⟩

/-- Where nothing goes on at the path's own entry any more, the path leads to
that entry if the way there does not go through it, and nowhere if it does. -/
theorem blocked_iff {tree' : FileTree} (hhome : tree'.home = tree.home)
    (hsame : ∀ other, other ≠ directory ++ [name] → tree'.get? other = tree.get? other)
    (hdirectory : tree.get? (directory ++ [name]) ≠ some .directory)
    (hgone : ∀ node, isWay node → tree'.get? (directory ++ [name]) ≠ some node)
    {route : List Place}
    (hroute : tree.Enters route (tree.start path) (Path.pieces path).dropLast directory)
    {directory' : Place} : tree'.EntryIn path directory' name ↔
      directory' = directory ∧ directory ++ [name] ∉ route := by
  rw [h.iff_exists_enters, start_of_home hhome]
  simp only [Enters.blocked_iff hsame hdirectory hgone]
  constructor
  · rintro ⟨route', -, hroute', hmem⟩
    obtain ⟨rfl, rfl⟩ := hroute.unique hroute'
    exact ⟨rfl, hmem⟩
  · rintro ⟨rfl, hmem⟩
    obtain ⟨route', hlength, hroute'⟩ := h.iff_exists_enters.1 h
    obtain ⟨rfl, -⟩ := hroute.unique hroute'
    exact ⟨route, hlength, hroute, hmem⟩

section
variable (hdirectory : tree.get? (directory ++ [name]) ≠ some .directory) {route : List Place}
  (hroute : tree.Enters route (tree.start path) (Path.pieces path).dropLast directory)
include hdirectory hroute

private theorem put_iff (content : Bytes) (mode : Nat) {directory' : Place} :
    (tree.put (directory ++ [name]) (.file content mode)).EntryIn path directory' name ↔
      directory' = directory ∧ directory ++ [name] ∉ route := by
  refine h.blocked_iff ?_ (fun other hne => ?_) hdirectory (fun node hway hget => ?_) hroute
  · rfl
  · rw [get?_put tree (by simp), if_neg hne]
  · rw [get?_put tree (by simp), if_pos rfl] at hget
    cases hget
    cases hway

theorem erase_iff {directory' : Place} :
    (tree.erase (directory ++ [name])).EntryIn path directory' name ↔
      directory' = directory ∧ directory ++ [name] ∉ route := by
  refine h.blocked_iff ?_ (fun other hne => ?_) hdirectory (fun node _ hget => ?_) hroute
  · rfl
  · rw [get?_erase tree (by simp), if_neg hne]
  · rw [get?_erase tree (by simp), if_pos rfl] at hget
    cases hget

/-- The path leads to its entry without that entry exactly if the way there
does not go through it. -/
theorem placeAt?_erase_iff :
    (tree.erase (directory ++ [name])).placeAt? path = some (directory ++ [name]) ↔
      directory ++ [name] ∉ route := by
  constructor
  · intro hfound
    rw [placeAt?] at hfound
    split at hfound
    · cases hfound
    all_goals
      next hlocate =>
        obtain ⟨directory', hentry⟩ := h.exists_of_locate hlocate
        exact ((h.erase_iff hdirectory hroute).1 hentry).2
  · intro hmem
    exact ((h.erase_iff hdirectory hroute).2 ⟨rfl, hmem⟩).placeAt?_eq

end

/-- A file that takes the place of the path's own entry is the entry of the
path if the path leads there without its entry. If it does not, the path has
no entry any more. -/
theorem entryAt?_put (hdirectory : tree.get? (directory ++ [name]) ≠ some .directory)
    (content : Bytes) (mode : Nat) :
    (tree.put (directory ++ [name]) (.file content mode)).entryAt? path =
      if (tree.erase (directory ++ [name])).placeAt? path = some (directory ++ [name])
      then some (.file content mode) else none := by
  obtain ⟨route, -, hroute⟩ := h.iff_exists_enters.1 h
  split
  · next hfound =>
    have hmem := (h.placeAt?_erase_iff hdirectory hroute).1 hfound
    have hlocate := ((h.put_iff hdirectory hroute content mode).2 ⟨rfl, hmem⟩).locate .entry (.inl rfl)
    rw [targetIn_of_some (by rw [get?_put tree (by simp), if_pos rfl])] at hlocate
    exact entryAt?_eq_some.2 ⟨_, hlocate⟩
  · next hfound =>
    refine Option.eq_none_iff_forall_ne_some.2 fun node hnode => ?_
    obtain ⟨place, hlocate⟩ := entryAt?_eq_some.1 hnode
    obtain ⟨directory', hentry⟩ := h.exists_of_locate hlocate
    have hmem := ((h.put_iff hdirectory hroute content mode).1 hentry).2
    exact hfound ((h.placeAt?_erase_iff hdirectory hroute).2 hmem)

/-- An entry that is no link is not on the way to itself. -/
theorem placeAt?_erase (hdirectory : tree.get? (directory ++ [name]) ≠ some .directory)
    (hlink : ∀ target, tree.get? (directory ++ [name]) ≠ some (.link target)) :
    (tree.erase (directory ++ [name])).placeAt? path = some (directory ++ [name]) := by
  obtain ⟨route, -, hroute⟩ := h.iff_exists_enters.1 h
  refine (h.placeAt?_erase_iff hdirectory hroute).2 fun hmem => ?_
  obtain ⟨target, hget⟩ := hroute.link_of_mem hmem
  exact hlink target hget

end EntryIn

end TaggedSource.FileTree

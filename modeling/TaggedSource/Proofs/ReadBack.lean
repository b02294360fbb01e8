/-
A file that was overwritten reads back as its content or not at all.

The content goes to the end of the temporary path's route, and then the entry
of the temporary path is moved to the entry of the path. Where the temporary
path had no entry, or a file as its entry, the content itself is moved. Where
it had a link, only the link is moved, and it is the link's target that holds
the content.

# What can be in the way

Both entries are in one directory, so a link that is moved starts from where
it started before, and the route behind it is the same in the new tree. So the
path has a route to the content, unless its own entry was on the route of the
temporary path or at its end (`Delivery.Free`), since that entry is not there
any more. This happens where the temporary path leads to the path's own entry
or through it, and where the path goes through the link that is its own entry.

Then the path has no route to a file at all. A route in the new tree that
leaves the moved entry aside is a route in the old one, where pieces have one
route; and behind the moved entry there is the content or nothing
(`Delivery.of_lands`).
-/
import Mathlib.Data.List.Permutation
import TaggedSource.Proofs.AllOrNothing
import TaggedSource.Proofs.Handling
import TaggedSource.Proofs.Utf8

namespace TaggedSource.FileTree

variable {tree final : FileTree}

-- ====================================================== a moved entry

/-- How a content gets to the entry of a path: it is written where another
name in the same directory leads, and the entry of that name is moved. -/
structure Delivery (tree final : FileTree) (start : Place) (steps : List Text)
    (name temporary : Name) (bytes : Bytes) where
  /-- The directory of both names. -/
  directory : Place
  /-- The links on the way to the directory. -/
  before : List Place
  /-- The links behind the other name. -/
  after : List Place
  /-- Where the other name leads. -/
  held : Place
  /-- The permission bits of what is written. -/
  mode : Nat
  /-- The steps lead to the directory. -/
  enters : tree.Enters before start steps directory
  /-- The other name leads to where the content is written. -/
  lands : tree.Lands after directory [] temporary held
  /-- There are not too many links. -/
  short : (before ++ after).length ≤ maxLinks
  /-- The name is looked up. -/
  step : IsStep name
  /-- The names are different. -/
  name_ne : name ≠ temporary
  /-- No directory has to make way. -/
  not_directory : tree.get? (directory ++ [name]) ≠ some .directory
  /-- What is moved. -/
  moved : Node
  /-- When the content is written, it stands under the other name. -/
  get?_moved : (tree.put held (.file bytes mode)).get? (directory ++ [temporary]) = some moved
  /-- The content is written, and the entry is moved. -/
  final_eq : final =
    ((tree.put held (.file bytes mode)).erase (directory ++ [temporary])).put
      (directory ++ [name]) moved

namespace Delivery

variable {start : Place} {steps : List Text} {name temporary : Name} {bytes : Bytes}
  (d : Delivery tree final start steps name temporary bytes)

/-- The entry of the path. -/
def place : Place := d.directory ++ [name]

/-- The entry that is moved. -/
def source : Place := d.directory ++ [temporary]

/-- The path's own entry is not in the way of the content: it is not a link
that the content goes through, nor where the content is written. -/
structure Free : Prop where
  not_mem : d.place ∉ d.before ++ d.after
  held_ne : d.held ≠ d.place

include d

/-- Paths start where they started. -/
theorem home : final.home = tree.home := by
  rw [d.final_eq]
  rfl

theorem get? (place : Place) : final.get? place =
    if place = d.directory ++ [name] then
      (tree.put d.held (.file bytes d.mode)).get? (d.directory ++ [temporary])
    else if place = d.directory ++ [temporary] then none
    else (tree.put d.held (.file bytes d.mode)).get? place := by
  rw [congrArg (FileTree.get? · place) d.final_eq, get?_put _ (by simp), get?_erase _ (by simp),
    d.get?_moved]

theorem place_ne_source : d.place ≠ d.source := by
  intro heq
  obtain ⟨-, heq⟩ := List.append_inj' heq rfl
  exact d.name_ne (List.cons.inj heq).1

/-- At the path stands what was at the temporary name: the new file, or a
link. -/
private theorem get?_place : final.get? d.place
    = if d.source = d.held then some (.file bytes d.mode) else tree.get? d.source := by
  rw [d.get?, place, if_pos rfl, get?_put tree d.lands.not_isWay.1]
  rfl

private theorem get?_source : final.get? d.source = none := by
  have hne : d.directory ++ [temporary] ≠ d.directory ++ [name] := d.place_ne_source.symm
  rw [d.get?, source, if_neg hne, if_pos rfl]

/-- The bytes are where they were written to, unless that was moved or
replaced. -/
private theorem get?_held (hplace : d.held ≠ d.place) (hsource : d.held ≠ d.source) :
    final.get? d.held = some (.file bytes d.mode) := by
  rw [place] at hplace
  rw [source] at hsource
  rw [d.get?, if_neg hplace, if_neg hsource, get?_put tree d.lands.not_isWay.1, if_pos rfl]

/-- The rest of the tree is as it was. -/
theorem get?_of_ne {other : Place} (hplace : other ≠ d.place) (hsource : other ≠ d.source)
    (hheld : other ≠ d.held) : final.get? other = tree.get? other := by
  rw [place] at hplace
  rw [source] at hsource
  rw [d.get?, if_neg hplace, if_neg hsource, get?_put tree d.lands.not_isWay.1, if_neg hheld]

/-- What is moved is the file that was written, or a link that leads to it. -/
theorem source_cases :
    d.after = [] ∧ d.held = d.source ∧ final.get? d.place = some (.file bytes d.mode) ∨
    ∃ later target front piece, d.after = d.source :: later ∧ d.held ≠ d.source ∧
      tree.get? d.source = some (.link target) ∧ final.get? d.place = some (.link target) ∧
      Path.endsInSlash target = false ∧ Path.pieces target = front ++ [piece] ∧
      tree.Lands later (linkStart d.directory target) front piece d.held := by
  obtain ⟨-, ⟨hafter, hsource⟩ | ⟨later, target, front, piece, hafter, hget, hrest⟩⟩ :=
    d.lands.cases_piece
  · have hsource : d.held = d.source := hsource
    exact .inl ⟨hafter, hsource, by rw [d.get?_place, if_pos hsource.symm]⟩
  · have hne : d.held ≠ d.source := by
      intro heq
      have hway := d.lands.not_isWay.2
      rw [heq] at hway
      exact hway _ rfl hget
    exact .inr ⟨later, target, front, piece, hafter, hne, hget,
      by rw [d.get?_place, if_neg hne.symm]; exact hget, hrest⟩

/-- A way in the new tree was there before, the moved entry apart. -/
theorem get?_of_isWay {place : Place} {node : Node} (hway : isWay node)
    (hget : final.get? place = some node) (hplace : place ≠ d.place) :
    tree.get? place = some node := by
  have hsource : place ≠ d.source := by
    intro hsource
    rw [hsource] at hget
    cases hget.symm.trans d.get?_source
  have hheld : place ≠ d.held := by
    intro hheld
    subst hheld
    cases hget.symm.trans (d.get?_held hplace hsource)
    cases hway
  rw [← d.get?_of_ne hplace hsource hheld, hget]

/-- A way in the old tree stays, the two entries apart. -/
theorem get?_of_isWay_before {place : Place} {node : Node} (hway : isWay node)
    (hget : tree.get? place = some node) (hplace : place ≠ d.place) (hsource : place ≠ d.source) :
    final.get? place = some node := by
  have hheld : place ≠ d.held := by
    intro hheld
    rw [hheld] at hget
    exact d.lands.not_isWay.2 _ hway hget
  rw [d.get?_of_ne hplace hsource hheld, hget]

theorem directory_before {place : Place} (hget : final.get? place = some .directory) :
    tree.get? place = some .directory := by
  refine d.get?_of_isWay rfl hget ?_
  rintro rfl
  rcases d.source_cases with ⟨-, -, hfile⟩ | ⟨_, _, _, _, -, -, -, hlink, -⟩
  · cases hget.symm.trans hfile
  · cases hget.symm.trans hlink

private theorem directory_after {place : Place} (hget : tree.get? place = some .directory) :
    final.get? place = some .directory := by
  refine d.get?_of_isWay_before rfl hget ?_ ?_
  · rintro rfl
    exact d.not_directory hget
  · rintro rfl
    obtain ⟨-, ⟨hafter, hsource⟩ | ⟨_, _, _, _, -, hlink, -⟩⟩ :=
      d.lands.cases_piece
    · exact d.lands.not_isWay.2 .directory rfl (hsource ▸ hget)
    · cases hget.symm.trans hlink

section
variable {route : List Place} {directory last : Place} {front : List Text} {piece : Text}

/-- A route that does not go through the path was there before. -/
private theorem enters_before (h : final.Enters route directory front last)
    (hplace : d.place ∉ route) :
    tree.Enters route directory front last := by
  refine h.of_same (fun _ => d.directory_before) fun other hmem => ?_
  obtain ⟨target, hget⟩ := h.link_of_mem hmem
  rw [hget]
  exact d.get?_of_isWay rfl hget (ne_of_mem_of_not_mem hmem hplace)

/-- A route is still there unless it goes through the path or its temporary
name. -/
private theorem enters_after (h : tree.Enters route directory front last) (hplace : d.place ∉ route)
    (hsource : d.source ∉ route) : final.Enters route directory front last := by
  refine h.of_same (fun _ => d.directory_after) fun other hmem => ?_
  obtain ⟨target, hget⟩ := h.link_of_mem hmem
  rw [hget]
  exact d.get?_of_isWay_before rfl hget (ne_of_mem_of_not_mem hmem hplace)
    (ne_of_mem_of_not_mem hmem hsource)

/-- A way to a file that was not moved was there before. -/
private theorem lands_before (h : final.Lands route directory front piece last)
    (hplace : d.place ∉ route)
    (hlast : last ≠ d.place) (hsource : last ≠ d.source) :
    tree.Lands route directory front piece last := by
  refine h.of_same (fun _ => d.directory_before) (fun other hmem => ?_) fun node hway hnode => ?_
  · obtain ⟨target, hget⟩ := h.link_of_mem hmem
    rw [hget]
    exact d.get?_of_isWay rfl hget (ne_of_mem_of_not_mem hmem hplace)
  · exact h.not_isWay.2 node hway (d.get?_of_isWay_before hway hnode hlast hsource)

/-- A way to a file is still there unless it goes through either entry. -/
private theorem lands_after (h : tree.Lands route directory front piece last)
    (hplace : d.place ∉ route)
    (hsource : d.source ∉ route) (hlast : last ≠ d.place) :
    final.Lands route directory front piece last := by
  refine h.of_same (fun _ => d.directory_after) (fun other hmem => ?_) fun node hway hnode => ?_
  · obtain ⟨target, hget⟩ := h.link_of_mem hmem
    rw [hget]
    exact d.get?_of_isWay_before rfl hget (ne_of_mem_of_not_mem hmem hplace)
      (ne_of_mem_of_not_mem hmem hsource)
  · exact h.not_isWay.2 node hway (d.get?_of_isWay hway hnode hlast)

end

-- ---------------------------------------------------- the path's new route

/-- The path leads to the content, if its own entry was not in the way. -/
theorem exists_lands (h : d.Free) :
    ∃ route, route.length ≤ maxLinks ∧ ∃ last, final.Lands route start steps name last ∧
      final.get? last = some (.file bytes d.mode) := by
  obtain ⟨hplace, hheld⟩ := h
  rw [List.mem_append, not_or] at hplace
  -- the entry that is moved leads to no directory, so it is not on the way to one
  have hsource : d.source ∉ d.before := by
    intro hmem
    obtain ⟨later, middle, hlater, -⟩ := d.enters.of_mem hmem
    exact d.lands.not_enters hlater
  have henters := d.enters_after d.enters hplace.1 hsource
  have hlands := d.lands
  have hshort := d.short
  rcases d.source_cases with ⟨hafter, -, hfile⟩ |
    ⟨later, target, front, piece, hafter, hne, -, hlink, hslash, hpieces, hlater⟩
  · rw [hafter, List.append_nil] at hshort
    refine ⟨d.before, hshort, d.place, .here henters d.step fun node hway hnode => ?_, hfile⟩
    cases hfile.symm.trans hnode
    cases hway
  · rw [hafter] at hlands hplace hshort
    have hrest : final.Lands later (linkStart d.directory target) front piece d.held :=
      d.lands_after hlater (fun hmem => hplace.2 (.tail _ hmem)) hlands.not_mem hheld
    refine ⟨d.before ++ d.place :: later, ?_, d.held,
      .link henters d.step hlink hslash hpieces hrest, d.get?_held hheld hne⟩
    simpa using hshort

/-- The moved entry does not lead to a directory. -/
theorem not_enters_place {later : List Place} {last : Place} :
    ¬ final.Enters (d.place :: later) d.directory [name] last := by
  intro h
  have hmem : d.place ∉ later := h.not_mem
  obtain ⟨target, hget, hrest⟩ := h.tail
  rcases d.source_cases with ⟨-, -, hfile⟩ |
    ⟨later', target', front, piece, -, -, -, hlink, -, hpieces, hlands⟩
  · cases hget.symm.trans hfile
  · cases hget.symm.trans hlink
    have henters := d.enters_before hrest hmem
    rw [hpieces] at henters
    exact hlands.not_enters henters

/-- If the moved entry leads to a file, that is the content, and the entry
was not on the route behind the other name. -/
theorem of_lands_place {route : List Place} {last : Place} {bytes' : Bytes} {mode' : Nat}
    (h : final.Lands route d.directory [] name last)
    (hget : final.get? last = some (.file bytes' mode')) :
    d.place ∉ d.after ∧ d.held ≠ d.place ∧ bytes' = bytes := by
  rcases d.source_cases with ⟨hafter, hheld, hfile⟩ |
    ⟨later, target, front, piece, hafter, hne, -, hlink, -, hpieces, hlater⟩
  · -- the content itself was moved
    obtain ⟨-, ⟨-, hlast⟩ | ⟨_, _, _, _, -, hlink, -⟩⟩ := h.cases_piece
    · subst hlast
      cases hget.symm.trans hfile
      rw [hafter, hheld]
      exact ⟨List.not_mem_nil, d.place_ne_source.symm, rfl⟩
    · cases hfile.symm.trans hlink
  · -- a link was moved, which leads where it led before
    obtain ⟨-, ⟨-, hlast⟩ | ⟨later', target', front', piece', rfl, hlink', -, hpieces', hrest⟩⟩ :=
      h.cases_piece
    · subst hlast
      cases hget.symm.trans hlink
    cases hlink.symm.trans hlink'
    obtain ⟨rfl, hpiece⟩ := List.append_inj' (hpieces.symm.trans hpieces') rfl
    cases hpiece
    have hmem : d.place ∉ later' := h.not_mem
    have hlast : last ≠ d.place := by
      intro hlast
      rw [hlast] at hget
      cases hget.symm.trans hlink
    have hsource : last ≠ d.source := by
      intro hsource
      rw [hsource] at hget
      cases hget.symm.trans d.get?_source
    obtain ⟨rfl, rfl⟩ := hlater.unique (d.lands_before hrest hmem hlast hsource)
    cases hget.symm.trans (d.get?_held hlast hne)
    rw [hafter, List.mem_cons, not_or]
    exact ⟨⟨d.place_ne_source, hmem⟩, hlast, rfl⟩

/-- If the path leads to a file, that is the content, and the path's own
entry was not in the way. -/
theorem of_lands {route : List Place} {last : Place} {bytes' : Bytes} {mode' : Nat}
    (h : final.Lands route start steps name last)
    (hget : final.get? last = some (.file bytes' mode')) : d.Free ∧ bytes' = bytes := by
  obtain ⟨before', after', middle, rfl, henters, hlands⟩ := h.split
  have hbefore : d.place ∉ before' := by
    intro hmem
    obtain ⟨later, last', hlater, -⟩ := henters.of_mem hmem
    exact d.not_enters_place hlater
  -- so the steps lead to the directory that they led to before
  obtain ⟨hsame, hmiddle⟩ := d.enters.unique (d.enters_before henters hbefore)
  subst hmiddle
  rw [← hsame] at hbefore
  obtain ⟨hafter, hheld, hbytes⟩ := d.of_lands_place hlands hget
  refine ⟨⟨fun hmem => ?_, hheld⟩, hbytes⟩
  rcases List.mem_append.1 hmem with hmem | hmem
  · exact hbefore hmem
  · exact hafter hmem

/-- The path's own entry was not in the way exactly if the other name leads
elsewhere without it. -/
theorem lands_erase_iff :
    (∃ route, route.length ≤ maxLinks ∧ ∃ last,
      (tree.erase d.place).Lands route start steps temporary last ∧ last ≠ d.place) ↔ d.Free := by
  have hplace : d.place ≠ [] := by simp [place]
  have hall : tree.Lands (d.before ++ d.after) start steps temporary d.held :=
    .append d.enters d.lands
  constructor
  · intro ⟨route, _, last, hlands, hlast⟩
    obtain ⟨hlands, hmem⟩ := (Lands.erase_iff hplace d.not_directory hlast).1 hlands
    obtain ⟨rfl, rfl⟩ := hall.unique hlands
    exact ⟨hmem, hlast⟩
  · intro ⟨hmem, hheld⟩
    exact ⟨_, d.short, d.held, (Lands.erase_iff hplace d.not_directory hheld).2 ⟨hall, hmem⟩, hheld⟩

end Delivery

-- ========================================================== overwriting

/-- The calls that an overwriting makes that does not fail. -/
theorem overwrite_eq_ok {path content : Text} (h : (tree.overwrite path content).result = .ok ()) :
    ∃ name given written ready, Path.fileName? path = some name ∧
      tree.modeIfAny path = .ok given ∧
      tree.writeBytes (Path.sibling path (temporaryName name)) (Utf8.encode content) = .ok written ∧
      written.setModeIfAny (Path.sibling path (temporaryName name)) given = .ok ready ∧
      ready.rename (Path.sibling path (temporaryName name)) path
        = .ok (tree.overwrite path content).final := by
  cases hname : Path.fileName? path with
  | none => simp [overwrite, hname] at h
  | some name =>
  cases hgiven : tree.modeIfAny path with
  | error fault => simp [overwrite, hname, hgiven] at h
  | ok given =>
  cases hwrite : tree.writeBytes (Path.sibling path (temporaryName name)) (Utf8.encode content) with
  | error fault => simp [overwrite, hname, hgiven, hwrite] at h
  | ok written =>
  cases hmode : written.setModeIfAny (Path.sibling path (temporaryName name)) given with
  | error fault => simp [overwrite, hname, hgiven, hwrite, hmode] at h
  | ok ready =>
  cases hrename : ready.rename (Path.sibling path (temporaryName name)) path with
  | error fault => simp [overwrite, hname, hgiven, hwrite, hmode, hrename] at h
  | ok final =>
      refine ⟨name, given, written, ready, rfl, rfl, hwrite, hmode, ?_⟩
      simp only [overwrite, hname, hgiven, hwrite, hmode, hrename]

/-- What is written beside a path stands at the end of a route, also when
the permission bits have been set. -/
theorem exists_lands_of_setModeIfAny {path : Text} {other : Name} {bytes : Bytes}
    {written ready : FileTree} {given : Option Nat} (hother : Path.IsName other)
    (hwrite : tree.writeBytes (Path.sibling path other) bytes = .ok written)
    (hmode : written.setModeIfAny (Path.sibling path other) given = .ok ready) :
    ∃ directory, tree.EntryIn (Path.sibling path other) directory other ∧
      ∀ steps, EndsIn (Path.sibling path other) steps other → ∃ route held mode,
        route.length ≤ maxLinks ∧
        tree.Lands route (tree.start (Path.sibling path other)) steps other held ∧
        ready = tree.put held (.file bytes mode) := by
  cases hlocate : tree.locate .write (Path.sibling path other) with
  | error fault =>
      rw [writeBytes, hlocate] at hwrite
      cases hwrite
  | ok target =>
      obtain ⟨directory, hentry⟩ := entryIn_of_locate_join hother hlocate
      refine ⟨directory, hentry, fun steps hends => ?_⟩
      obtain ⟨route, held, hlength, hlands, rfl⟩ := hends.exists_lands_of_writeBytes hwrite
      rw [hends.setModeIfAny_put_of_lands hlands hlength] at hmode
      exact ⟨route, held, _, hlength, hlands, (Except.ok.inj hmode).symm⟩

/-- An overwriting that does not fail delivers its content. -/
theorem exists_delivery {path content : Text}
    (h : (tree.overwrite path content).result = .ok ()) :
    ∃ name steps, Path.fileName? path = some name ∧ EndsIn path steps name ∧
      EndsIn (Path.sibling path (temporaryName name)) steps (temporaryName name) ∧
      Path.isAbsolute (Path.sibling path (temporaryName name)) = Path.isAbsolute path ∧
      ∃ d : Delivery tree (tree.overwrite path content).final (tree.start path) steps name
        (temporaryName name) (Utf8.encode content),
        tree.EntryIn path d.directory name ∧
        tree.EntryIn (Path.sibling path (temporaryName name)) d.directory (temporaryName name) := by
  obtain ⟨name, given, written, ready, hname, hgiven, hwrite, hmode, hrename⟩ := overwrite_eq_ok h
  have hisName : Path.IsName name := Path.isName_of_fileName? hname (modeIfAny_eq_ok hgiven).1
  have htemporary : Path.IsName (temporaryName name) := isName_temporaryName hisName
  obtain ⟨directory, hbeside, hheld⟩ := exists_lands_of_setModeIfAny htemporary hwrite hmode
  obtain ⟨directory', name', place, node, hready, hlocate, hdirectory, hfinal⟩ :=
    rename_eq_ok hrename
  obtain rfl : name' = name := Option.some.inj
    ((Path.fileName?_of_pieces hready.pieces_eq hready.ne_dot hready.ne_dots).symm.trans hname)
  -- both paths have their entries behind the same steps
  obtain ⟨hends, habsolute⟩ := hready.endsIn.sibling hisName htemporary hbeside.endsIn.taken
  obtain ⟨route, held, mode, hlength, hlands, rfl⟩ := hheld _ hends
  obtain ⟨hne, hway⟩ := hlands.not_isWay
  have hways : (tree.put held (.file (Utf8.encode content) mode)).HasWaysOf tree :=
    hasWaysOf_put hne hway
  have hentry : tree.EntryIn path directory' name' :=
    hready.of_hasWaysOf rfl (hasWaysOf_of_put hne)
  obtain ⟨before, after, middle, rfl, henters, hlast⟩ := hlands.split
  obtain ⟨_, hroute⟩ := hends.exists_enters hbeside
  obtain ⟨-, rfl⟩ := henters.unique hroute
  rw [start_congr habsolute] at henters
  obtain ⟨_, hroute'⟩ := hentry.endsIn.exists_enters hentry
  obtain ⟨-, rfl⟩ := henters.unique hroute'
  -- the entry of the temporary path is moved
  have hbeside' : (tree.put held (.file (Utf8.encode content) mode)).EntryIn
      (Path.sibling path (temporaryName name')) middle (temporaryName name') :=
    hbeside.of_hasWaysOf rfl hways
  obtain ⟨rfl, hnode⟩ := hbeside'.eq_of_locate hlocate
  have hother : name' ≠ temporaryName name' := (temporaryName_ne name').symm
  rw [if_neg (by simpa using hother)] at hfinal
  refine ⟨name', _, hname, hentry.endsIn, hends, habsolute,
    { directory := middle, before := before, after := after, held := held, mode := mode,
      enters := henters, lands := hlast, short := hlength, step := hentry.isStep,
      name_ne := hother, not_directory := fun hget => hdirectory (hways _ _ rfl hget),
      moved := node, get?_moved := hnode, final_eq := hfinal }, hentry, hbeside⟩

-- ============================================================ reading back

namespace Delivery

variable {start : Place} {steps : List Text} {name temporary : Name} {content path : Text}
  (d : Delivery tree final start steps name temporary (Utf8.encode content))

include d in
private theorem start_eq (path : Text) : final.start path = tree.start path :=
  start_of_home d.home path

/-- Whatever the path reads as is the content. -/
theorem of_readSource (hpath : EndsIn path steps name) (hstart : tree.start path = start) {t : Text}
    (h : final.readSource path = .ok t) : d.Free ∧ t = content := by
  obtain ⟨bytes, hbytes, hdecode⟩ := readSource_eq_ok_iff.1 h
  obtain ⟨route, last, mode, -, hlands, hget⟩ := hpath.readBytes_eq_ok_iff.1 hbytes
  rw [d.start_eq, hstart] at hlands
  obtain ⟨hfree, rfl⟩ := d.of_lands hlands hget
  rw [Utf8.decode_encode] at hdecode
  exact ⟨hfree, (Except.ok.inj hdecode).symm⟩

/-- If the path's own entry was not in the way, the path reads as the
content. -/
private theorem readSource_of_free (hpath : EndsIn path steps name)
    (hstart : tree.start path = start)
    (h : d.Free) : final.readSource path = .ok content := by
  obtain ⟨route, hlength, last, hlands, hget⟩ := d.exists_lands h
  rw [← hstart, ← d.start_eq] at hlands
  have hbytes := hpath.readBytes_eq_ok_iff.2 ⟨route, last, _, hlength, hlands, hget⟩
  exact readSource_eq_ok_iff.2 ⟨_, hbytes, Utf8.decode_encode content⟩

/-- The path's own entry was not in the way exactly if the content could have
been written without it, and elsewhere. -/
theorem free_iff (hpath : EndsIn path steps temporary) (hstart : tree.start path = start) :
    d.Free ↔ ∃ written, (tree.erase d.place).writeBytes path (Utf8.encode content) = .ok written ∧
      written.get? d.place = none := by
  have hplace : d.place ≠ [] := by simp [place]
  rw [← d.lands_erase_iff]
  subst hstart
  constructor
  · intro ⟨route, hlength, last, hlands, hlast⟩
    refine ⟨_, hpath.writeBytes_of_lands hlands hlength _, ?_⟩
    rw [get?_put _ hlands.not_isWay.1, if_neg hlast.symm, get?_erase tree hplace, if_pos rfl]
  · intro ⟨written, hwrite, hget⟩
    obtain ⟨route, last, hlength, hlands, rfl⟩ := hpath.exists_lands_of_writeBytes hwrite
    refine ⟨route, hlength, last, hlands, fun hlast => ?_⟩
    rw [get?_put _ hlands.not_isWay.1, if_pos hlast.symm] at hget
    cases hget

/-- Where no entry is a link, none is in the way. -/
theorem free_of_no_link (hplace : ∀ target, tree.get? d.place ≠ some (.link target))
    (hsource : ∀ target, tree.get? d.source ≠ some (.link target)) : d.Free := by
  constructor
  · intro hmem
    obtain ⟨target, hget⟩ := (Lands.append d.enters d.lands).link_of_mem hmem
    exact hplace target hget
  · rcases d.source_cases with ⟨-, hheld, -⟩ | ⟨_, target, _, _, -, -, hget, -⟩
    · rw [hheld]
      exact d.place_ne_source.symm
    · exact absurd hget (hsource target)

end Delivery

/-- What was overwritten reads back as its content or not at all. It reads
back exactly if the content could have been written to the temporary path
without the path's own entry, and elsewhere; where neither that entry nor the
temporary path's is a link, this is so. -/
theorem overwrite_reads_back (tree : FileTree) (path content : Text)
    (h : (tree.overwrite path content).result = .ok ()) :
    let final := (tree.overwrite path content).final
    ∃ name place, Path.fileName? path = some name ∧ tree.placeAt? path = some place ∧
      (∀ t, final.readSource path = .ok t → t = content) ∧
      (final.readSource path = .ok content ↔
        ∃ written, (tree.erase place).writeBytes (Path.sibling path (temporaryName name))
            (Utf8.encode content) = .ok written ∧ written.get? place = none) ∧
      ((∀ target, tree.get? place ≠ some (.link target)) →
        (∀ target, tree.entryAt? (Path.sibling path (temporaryName name)) ≠ some (.link target)) →
        final.readSource path = .ok content) := by
  intro final
  obtain ⟨name, steps, hname, hends, hbeside, habsolute, d, hentry, hentry'⟩ := exists_delivery h
  refine ⟨name, d.place, hname, hentry.placeAt?_eq, fun t ht => (d.of_readSource hends rfl ht).2,
    ?_, fun hlink hlink' => ?_⟩
  · rw [← d.free_iff hbeside (start_congr habsolute)]
    exact ⟨fun ht => (d.of_readSource hends rfl ht).1, d.readSource_of_free hends rfl⟩
  · refine d.readSource_of_free hends rfl (d.free_of_no_link hlink fun target hget => ?_)
    have hlocate := hentry'.locate .entry (.inl rfl)
    rw [targetIn_of_some hget] at hlocate
    exact hlink' target (entryAt?_eq_some.2 ⟨_, hlocate⟩)

/-- A file, and a link that has the name of its temporary file. -/
def staleTree (target : Text) : FileTree where
  home := []
  entries :=
    [([text "a.js"], .file (Utf8.encode (text "old")) 0o644),
      ([text ".a.js.piranhito.tmp"], .link target)]

/-- A link that leads elsewhere is moved along with what it leads to. -/
theorem overwrite_reads_back_staleTree :
    let course := (staleTree (text "b.js")).overwrite (text "a.js") (text "new")
    course.result = .ok () ∧ course.final.get? [text "a.js"] = some (.link (text "b.js")) ∧
      course.final.readSource (text "a.js") = .ok (text "new") := by
  have hok : ((staleTree (text "b.js")).overwrite (text "a.js") (text "new")).result = .ok () := by
    cbv
  have hplace : (staleTree (text "b.js")).placeAt? (text "a.js") = some [text "a.js"] := by cbv
  have hname : Path.fileName? (text "a.js") = some (text "a.js") := by decide
  obtain ⟨name, place, hname', hplace', -, hread, -⟩ :=
    overwrite_reads_back (staleTree (text "b.js")) (text "a.js") (text "new") hok
  obtain rfl : text "a.js" = name := Option.some.inj (hname.symm.trans hname')
  obtain rfl : [text "a.js"] = place := Option.some.inj (hplace.symm.trans hplace')
  refine ⟨hok, by cbv, hread.2 ⟨((staleTree (text "b.js")).erase [text "a.js"]).put [text "b.js"]
    (.file (Utf8.encode (text "new")) 0o644), by cbv, by cbv⟩⟩

/-- A link that leads to the path's own entry takes the place of what it leads
to. So does a file that takes the place of a link on its own path. Neither
reads back, and the first leaves nothing of the old content either. -/
theorem overwrite_lost_behind_own_entry :
    let loop := (staleTree (text "a.js")).overwrite (text "a.js") (text "new")
    let mirrored := mirrorTree.overwrite (text "a/a") (text "new")
    (loop.result = .ok () ∧ loop.final.entries = [([text "a.js"], .link (text "a.js"))] ∧
      loop.final.readSource (text "a.js") = .error (.system .tooManyLinks)) ∧
    mirrored.result = .ok () ∧ mirrorTree.placeAt? (text "a/a") = some [text "a"] ∧
      mirrored.final.readSource (text "a/a") = .error (.system .notDirectory) := by
  refine ⟨⟨?_, ?_, ?_⟩, ?_, ?_, ?_⟩ <;> cbv

end TaggedSource.FileTree

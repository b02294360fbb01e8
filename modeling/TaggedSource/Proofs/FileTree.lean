/-
Trees as a machine holds them, and what a change of contents leaves alone.

`FileTree` is a list of entries, and the functions on it make sense of any
list. A machine has less: every place is taken once, by names that a
directory can hold, and in a directory (`Sound`). A tree with no links and
nothing where a temporary file would go is `Clear`.

A batch changes contents and nothing else, so all that it finds on its way
is a matter of the tree without its contents (`outline`): soundness,
clearness, which places are directories, and the names in them. Each of
these is read off the outline once, and putting a file where one stood
keeps the outline (`outline_put`).
-/
import TaggedSource.FileTree.Overwrite
import TaggedSource.Proofs.Path

namespace TaggedSource

/-- A node without its content. -/
def Node.outline : Node → Node
  | .file _ mode => .file [] mode
  | node => node

/-- What the same outline tells of a node. -/
theorem Node.of_outline {found node : Option Node}
    (h : found.map Node.outline = node.map Node.outline) :
    (node = none → found = none) ∧ (node = some .directory → found = some .directory) ∧
      (∀ target, node = some (.link target) → found = some (.link target)) ∧
      ∀ content mode, node = some (.file content mode) →
        ∃ other, found = some (.file other mode) := by
  cases found with
  | none => cases node <;> simp_all
  | some found =>
      cases node with
      | none => simp at h
      | some node => cases found <;> cases node <;> simp_all [Node.outline]

/-- The test for a directory, as an equation. -/
theorem Node.isDirectory_iff {node : Node} : node.isDirectory = true ↔ node = .directory := by
  cases node <;> simp [Node.isDirectory]

namespace FileTree

-- ==================================================== what stands where

/-- The places where something stands. -/
def places (tree : FileTree) : List Place := tree.entries.map (·.1)

/-- What is found stands among the entries. -/
private theorem findIn_eq_some {place : Place} {node : Node} {entries : List (Place × Node)}
    (h : findIn place entries = some node) : (place, node) ∈ entries := by
  induction entries with
  | nil => simp [findIn] at h
  | cons entry entries ih =>
      rw [findIn] at h
      split at h
      · next hplace =>
        cases h
        rw [← hplace]
        exact .head _
      · exact .tail _ (ih h)

/-- Where no place is taken twice, every entry is found. -/
private theorem findIn_of_mem {place : Place} {node : Node} {entries : List (Place × Node)}
    (hdistinct : (entries.map (·.1)).Nodup) (h : (place, node) ∈ entries) :
    findIn place entries = some node := by
  induction entries with
  | nil => simp at h
  | cons entry entries ih =>
      rw [List.map_cons, List.nodup_cons] at hdistinct
      obtain h | ⟨_, h⟩ := h
      · rw [findIn, if_pos rfl]
      · have hne : entry.1 ≠ place := fun he =>
          hdistinct.1 (List.mem_map.2 ⟨(place, node), h, he.symm⟩)
        rw [findIn, if_neg hne]
        exact ih hdistinct.2 h

/-- Nothing is found exactly at the places that no entry has. -/
private theorem findIn_eq_none {place : Place} {entries : List (Place × Node)} :
    findIn place entries = none ↔ place ∉ entries.map (·.1) := by
  induction entries with
  | nil => simp [findIn]
  | cons entry entries ih =>
      rw [findIn, List.map_cons, List.mem_cons]
      split
      · next hplace => simp [hplace]
      · next hplace => simp [ih, Ne.symm hplace]

section
variable {tree : FileTree} {place : Place} {node : Node}

/-- Below the root, what stands at a place is a matter of the entries. -/
private theorem get?_of_ne_nil (hplace : place ≠ []) :
    tree.get? place = findIn place tree.entries :=
  if_neg hplace

/-- Where something stands, the place is taken. -/
theorem mem_places_of_get? (hplace : place ≠ []) (h : tree.get? place = some node) :
    place ∈ tree.places := by
  rw [get?_of_ne_nil hplace] at h
  exact List.mem_map.2 ⟨_, findIn_eq_some h, rfl⟩

/-- Nothing stands at a place exactly if no entry takes it. -/
theorem get?_eq_none (hplace : place ≠ []) : tree.get? place = none ↔ place ∉ tree.places := by
  rw [get?_of_ne_nil hplace]
  exact findIn_eq_none

end

-- ============================================================== changes

/-- A change shows at its own place only. -/
private theorem get?_change (tree : FileTree) {place : Place} (h : place ≠ []) (node : Option Node)
    (other : Place) :
    (tree.change (place, node)).get? other = if other = place then node else tree.get? other := by
  cases node with
  | none => exact get?_erase tree h other
  | some node => exact get?_put tree h node other

/-- Places that are changed to what another tree has there look like that
tree, and all else is as it was. -/
theorem get?_foldl_change (after : FileTree) {places : List Place} (hplaces : [] ∉ places)
    (tree : FileTree) (other : Place) :
    ((places.map fun place => (place, after.get? place)).foldl change tree).get? other =
      if other ∈ places then after.get? other else tree.get? other := by
  induction places generalizing tree with
  | nil => simp
  | cons place places ih =>
      rw [List.mem_cons, not_or] at hplaces
      rw [List.map_cons, List.foldl_cons, ih hplaces.2, get?_change tree (Ne.symm hplaces.1)]
      by_cases hother : other = place
      · simp [hother]
      · simp [hother]

/-- The changes between two trees make the second of the first. -/
theorem get?_foldl_changes (before after : FileTree) (place : Place) :
    ((before.changes after).foldl change before).get? place = after.get? place := by
  rw [changes, get?_foldl_change after (by simp [get?])]
  split
  · rfl
  · next hkept =>
    -- a place that is not changed is the same in both, or taken in neither
    refine Decidable.byContradiction fun hdiffer =>
      hkept (List.mem_filter.2 ⟨?_, by simpa using hdiffer⟩)
    have hplace : place ≠ [] := by
      rintro rfl
      exact hdiffer rfl
    rw [List.map_append, List.mem_append]
    cases hafter : after.get? place with
    | some node => exact .inl (mem_places_of_get? hplace hafter)
    | none =>
        cases hbefore : before.get? place with
        | none => exact absurd (hbefore.trans hafter.symm) hdiffer
        | some node =>
            rw [get?_of_ne_nil hplace] at hbefore
            exact .inr (List.mem_map.2 ⟨_, List.mem_filter.2
              ⟨findIn_eq_some hbefore, by simp [hafter]⟩, rfl⟩)

-- ============================================================ soundness

/-- A tree as a machine holds it. -/
structure Sound (tree : FileTree) : Prop where
  /-- No place is taken twice. -/
  distinct : tree.places.Nodup
  /-- The root has no entry of its own. -/
  ne_root : ∀ place ∈ tree.places, place ≠ []
  /-- Places are made of names. -/
  names : ∀ place ∈ tree.places, ∀ name ∈ place,
    Path.IsName name ∧ Text.byteSize name ≤ maxName
  /-- What stands somewhere stands in a directory. -/
  parents : ∀ place ∈ tree.places, tree.get? place.dropLast = some .directory
  /-- The working directory is there. -/
  at_home : tree.get? tree.home = some .directory

instance (tree : FileTree) : Decidable tree.Sound :=
  decidable_of_iff
    (tree.places.Nodup ∧ (∀ place ∈ tree.places, place ≠ []) ∧
      (∀ place ∈ tree.places, ∀ name ∈ place,
        Path.IsName name ∧ Text.byteSize name ≤ maxName) ∧
      (∀ place ∈ tree.places, tree.get? place.dropLast = some .directory) ∧
      tree.get? tree.home = some .directory)
    ⟨fun ⟨a, b, c, d, e⟩ => ⟨a, b, c, d, e⟩, fun ⟨a, b, c, d, e⟩ => ⟨a, b, c, d, e⟩⟩

namespace Sound

variable {tree : FileTree} (h : tree.Sound)
include h

/-- In a sound tree the entries are what stands below the root. -/
theorem mem_entries_iff {place : Place} {node : Node} :
    (place, node) ∈ tree.entries ↔ place ≠ [] ∧ tree.get? place = some node := by
  constructor
  · intro hmem
    have hplace := h.ne_root place (List.mem_map.2 ⟨_, hmem, rfl⟩)
    refine ⟨hplace, ?_⟩
    rw [get?_of_ne_nil hplace]
    exact findIn_of_mem h.distinct hmem
  · rintro ⟨hplace, hget⟩
    rw [get?_of_ne_nil hplace] at hget
    exact findIn_eq_some hget

/-- The names that lead to something are names that a directory can hold. -/
theorem isName {place : Place} {node : Node} (hget : tree.get? place = some node) {name : Name}
    (hname : name ∈ place) : Path.IsName name ∧ Text.byteSize name ≤ maxName :=
  h.names place (mem_places_of_get? (List.ne_nil_of_mem hname) hget) name hname

end Sound

/-- All that something stands below is a directory. -/
theorem Sound.directory_of_below {tree : FileTree} (h : tree.Sound) {directory names : Place}
    {node : Node} (hnames : names ≠ []) (hget : tree.get? (directory ++ names) = some node) :
    tree.get? directory = some .directory := by
  -- the parent of a place is a directory; so up to the first of the names
  have hparent : tree.get? (directory ++ names.dropLast) = some .directory := by
    have hmem := mem_places_of_get? (by simp [hnames]) hget
    rw [← List.dropLast_append_of_ne_nil hnames]
    exact h.parents _ hmem
  by_cases hrest : names.dropLast = []
  · rwa [hrest, List.append_nil] at hparent
  · exact h.directory_of_below hrest hparent
termination_by names.length
decreasing_by
  rw [List.length_dropLast]
  have := List.length_pos_iff.2 hnames
  omega

-- =========================================================== clearness

/-- The place of the temporary file beside a place. -/
def temporaryPlace (place : Place) : Place :=
  place.dropLast ++ [temporaryName (place.getLastD [])]

/-- A tree with no links, and with nothing where the temporary file beside
a file would go. -/
structure Clear (tree : FileTree) : Prop where
  /-- Nothing is a link. -/
  no_link : ∀ place target, tree.get? place ≠ some (.link target)
  /-- No temporary file would replace anything. -/
  no_temporary : ∀ place content mode,
    tree.get? place = some (.file content mode) → tree.get? (temporaryPlace place) = none

/-- Whether a place keeps a tree from being clear. -/
def isClearAt (tree : FileTree) (place : Place) : Bool :=
  match tree.get? place with
  | some (.link _) => false
  | some (.file ..) => (tree.get? (temporaryPlace place)).isNone
  | _ => true

/-- Clearness can be tested place by place. -/
private theorem clear_iff {tree : FileTree} :
    tree.Clear ↔ ∀ place ∈ tree.places, tree.isClearAt place := by
  constructor
  · intro h place _
    unfold isClearAt
    split
    · next target hget => exact absurd hget (h.no_link place target)
    · next content mode hget => rw [h.no_temporary place content mode hget]; rfl
    · rfl
  · intro h
    have hclear {place : Place} {node : Node} (hget : tree.get? place = some node)
        (hnode : node ≠ .directory) : tree.isClearAt place := by
      refine h place (mem_places_of_get? ?_ hget)
      rintro rfl
      exact hnode (Option.some.inj hget).symm
    constructor
    · intro place target hget
      have := hclear hget (by simp)
      simp [isClearAt, hget] at this
    · intro place content mode hget
      have := hclear hget (by simp)
      simpa [isClearAt, hget] using this

instance (tree : FileTree) : Decidable tree.Clear := decidable_of_iff' _ clear_iff

-- ============================================================= outlines

/-- A tree without its contents. -/
def outline (tree : FileTree) : FileTree :=
  { tree with entries := tree.entries.map fun entry => (entry.1, entry.2.outline) }

private theorem places_outline (tree : FileTree) : tree.outline.places = tree.places := by
  simp [places, outline]

/-- The outline has at each place what the tree has, without its content. -/
private theorem get?_outline (tree : FileTree) (place : Place) :
    tree.outline.get? place = (tree.get? place).map Node.outline := by
  have hfind (entries : List (Place × Node)) :
      findIn place (entries.map fun entry => (entry.1, entry.2.outline))
        = (findIn place entries).map Node.outline := by
    induction entries with
    | nil => rfl
    | cons entry entries ih =>
        rw [List.map_cons, findIn, findIn, ih]
        split <;> rfl
  unfold get?
  split
  · rfl
  · exact hfind tree.entries

section
variable {tree tree' : FileTree} (h : tree'.outline = tree.outline)
include h

/-- The working directory is part of the outline. -/
theorem home_of_outline : tree'.home = tree.home := by
  have := congrArg FileTree.home h
  exact this

/-- The places that are taken are part of the outline. -/
theorem places_of_outline : tree'.places = tree.places := by
  rw [← places_outline, h, places_outline]

/-- What stands at a place is part of the outline, but for contents. -/
private theorem get?_map_of_outline (place : Place) :
    (tree'.get? place).map Node.outline = (tree.get? place).map Node.outline := by
  rw [← get?_outline, h, get?_outline]

/-- A place is vacant in both trees or in neither. -/
private theorem get?_eq_none_of_outline {place : Place} :
    tree'.get? place = none ↔ tree.get? place = none := by
  rw [← Option.map_eq_none_iff (f := Node.outline), get?_map_of_outline h, Option.map_eq_none_iff]

/-- Where one tree has something, the other has something too. -/
theorem exists_get?_of_outline {place : Place} {node : Node} (hget : tree.get? place = some node) :
    ∃ found, tree'.get? place = some found := by
  cases hnode : tree'.get? place with
  | none => simp [(get?_eq_none_of_outline h).1 hnode] at hget
  | some found => exact ⟨found, rfl⟩

/-- Both trees have their directories at the same places. -/
theorem directory_of_outline {place : Place} :
    tree'.get? place = some .directory ↔ tree.get? place = some .directory := by
  have hdirectory (t : FileTree) : t.get? place = some .directory
      ↔ (t.get? place).map Node.outline = some .directory := by
    cases hnode : t.get? place with
    | none => simp
    | some node => cases node <;> simp [Node.outline]
  rw [hdirectory, hdirectory, get?_map_of_outline h]

/-- Soundness asks for nothing but the outline. -/
theorem Sound.of_outline (hsound : tree.Sound) : tree'.Sound := by
  have hplaces := places_of_outline h
  refine ⟨hplaces ▸ hsound.distinct, fun place hplace => hsound.ne_root place (hplaces ▸ hplace),
    fun place hplace => hsound.names place (hplaces ▸ hplace), fun place hplace => ?_, ?_⟩
  · exact (directory_of_outline h).2 (hsound.parents place (hplaces ▸ hplace))
  · rw [home_of_outline h]
    exact (directory_of_outline h).2 hsound.at_home

/-- Clearness asks for nothing but the outline. -/
theorem Clear.of_outline (hclear : tree.Clear) : tree'.Clear := by
  constructor
  · intro place target hlink
    have hmap := get?_map_of_outline h place
    rw [hlink] at hmap
    cases hnode : tree.get? place with
    | none => simp [hnode] at hmap
    | some node =>
        cases node with
        | link other => exact hclear.no_link place other hnode
        | _ => simp [hnode, Node.outline] at hmap
  · intro place content mode hfile
    have hmap := get?_map_of_outline h place
    rw [hfile] at hmap
    rw [get?_eq_none_of_outline h]
    cases hnode : tree.get? place with
    | none => simp [hnode] at hmap
    | some node =>
        cases node with
        | file content mode => exact hclear.no_temporary place content mode hnode
        | _ => simp [hnode, Node.outline] at hmap

end

/-- A file that is put where one stood, with its permission bits, keeps
the outline. -/
theorem outline_put {tree : FileTree} {place : Place} {old new : Bytes} {mode : Nat}
    (hplace : place ≠ []) (h : tree.get? place = some (.file old mode)) :
    (tree.put place (.file new mode)).outline = tree.outline := by
  have hput (entries : List (Place × Node)) (hfind : findIn place entries = some (.file old mode)) :
      (putIn place (.file new mode) entries).map (fun entry => (entry.1, entry.2.outline))
        = entries.map fun entry => (entry.1, entry.2.outline) := by
    induction entries with
    | nil => simp [findIn] at hfind
    | cons entry entries ih =>
        rw [findIn] at hfind
        rw [putIn]
        split at hfind
        · next hentry =>
          have hnode := Option.some.inj hfind
          rw [if_pos hentry, List.map_cons, List.map_cons, hnode, hentry]
          rfl
        · next hentry => rw [if_neg hentry, List.map_cons, List.map_cons, ih hfind]
  rw [get?_of_ne_nil hplace] at h
  unfold outline put
  simp only
  rw [hput _ h]

end FileTree

end TaggedSource

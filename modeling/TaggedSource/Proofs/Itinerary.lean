/-
What stands below a directory, in the order in which a walk gets to it.

A walk goes through the entries of a directory by name, and through a
directory right behind the directory itself. That is the order of the
places, compared name by name: a directory comes before what is in it, and
all that is in it before the next name. So the itinerary of a walk needs no
recursion to be told; it is the entries below the directory, sorted
(`itinerary_eq_below`).

Names are compared character by character and places name by name, so the
order is taken twice from one construction (`lexical`).
-/
import TaggedSource.Proofs.FileTree

namespace TaggedSource

-- ===================================================== lexical comparison

section
variable {α : Type} [DecidableEq α]

/-- Whether a list is another one or comes before it, where the first
difference decides. -/
def lexical (le : α → α → Bool) : List α → List α → Bool
  | [], _ => true
  | _ :: _, [] => false
  | a :: s, b :: t => if a = b then lexical le s t else le a b

variable {le : α → α → Bool}

/-- Equal first elements decide nothing. -/
private theorem lexical_cons_self (a : α) (s t : List α) :
    lexical le (a :: s) (a :: t) = lexical le s t :=
  if_pos rfl

/-- Different first elements decide alone. -/
private theorem lexical_cons_of_ne {a b : α} (h : a ≠ b) (s t : List α) :
    lexical le (a :: s) (b :: t) = le a b :=
  if_neg h

/-- What two lists have in common at the front does not matter. -/
private theorem lexical_append_left (p s t : List α) :
    lexical le (p ++ s) (p ++ t) = lexical le s t := by
  induction p with
  | nil => rfl
  | cons a p ih => rw [List.cons_append, List.cons_append, lexical_cons_self, ih]

/-- A total order gives a total order of lists. -/
private theorem lexical_total (total : ∀ a b, le a b = true ∨ le b a = true) (s t : List α) :
    lexical le s t = true ∨ lexical le t s = true := by
  induction s generalizing t with
  | nil => exact .inl (by simp [lexical])
  | cons a s ih =>
      cases t with
      | nil => exact .inr rfl
      | cons b t =>
          by_cases h : a = b
          · subst h
            rw [lexical_cons_self, lexical_cons_self]
            exact ih t
          · rw [lexical_cons_of_ne h, lexical_cons_of_ne (Ne.symm h)]
            exact total a b

/-- An order gives a transitive order of lists. -/
private theorem lexical_trans (trans : ∀ a b c, le a b = true → le b c = true → le a c = true)
    (antisymm : ∀ a b, le a b = true → le b a = true → a = b) {s t u : List α}
    (hst : lexical le s t = true) (htu : lexical le t u = true) : lexical le s u = true := by
  induction s generalizing t u with
  | nil => simp [lexical]
  | cons a s ih =>
      cases t with
      | nil => simp [lexical] at hst
      | cons b t =>
          cases u with
          | nil => simp [lexical] at htu
          | cons c u =>
              -- the first difference of three lists is one of their heads, or further on
              by_cases hab : a = b
              · subst hab
                rw [lexical_cons_self] at hst
                by_cases hac : a = c
                · subst hac
                  rw [lexical_cons_self] at htu ⊢
                  exact ih hst htu
                · rw [lexical_cons_of_ne hac] at htu ⊢
                  exact htu
              · rw [lexical_cons_of_ne hab] at hst
                by_cases hbc : b = c
                · subst hbc
                  rw [lexical_cons_of_ne hab]
                  exact hst
                · rw [lexical_cons_of_ne hbc] at htu
                  have hac : a ≠ c := by
                    rintro rfl
                    exact hab (antisymm a b hst htu)
                  rw [lexical_cons_of_ne hac]
                  exact trans a b c hst htu

/-- Lists that come before each other are equal. -/
theorem lexical_antisymm (antisymm : ∀ a b, le a b = true → le b a = true → a = b)
    {s t : List α} (hst : lexical le s t = true) (hts : lexical le t s = true) : s = t := by
  induction s generalizing t with
  | nil =>
      cases t with
      | nil => rfl
      | cons b t => simp [lexical] at hts
  | cons a s ih =>
      cases t with
      | nil => simp [lexical] at hst
      | cons b t =>
          by_cases h : a = b
          · subst h
            rw [lexical_cons_self] at hst hts
            rw [ih hst hts]
          · rw [lexical_cons_of_ne h] at hst
            rw [lexical_cons_of_ne (Ne.symm h)] at hts
            exact absurd (antisymm a b hst hts) h

end

-- ============================================================ the orders

namespace Text

/-- Texts are ordered by their first difference, as lists are. -/
private theorem atMost_eq_lexical (s t : Text) :
    atMost s t = lexical (fun c d : Char => decide (c.toNat ≤ d.toNat)) s t := by
  induction s generalizing t with
  | nil => simp [atMost, lexical]
  | cons c s ih =>
      cases t with
      | nil => rfl
      | cons d t =>
          rw [atMost, lexical, ih]
          by_cases h : c = d
          · subst h
            simp
          · have hne : c.toNat ≠ d.toNat := fun hc => h (Char.toNat_inj.1 hc)
            have hlt : c.toNat < d.toNat ↔ c.toNat ≤ d.toNat := by omega
            simp [h, hne, hlt]

private theorem atMost_total (s t : Text) : atMost s t = true ∨ atMost t s = true := by
  rw [atMost_eq_lexical, atMost_eq_lexical]
  apply lexical_total
  intro c d
  rw [decide_eq_true_eq, decide_eq_true_eq]
  omega

/-- No two characters have the same number. -/
private theorem toNat_antisymm (c d : Char) (hcd : decide (c.toNat ≤ d.toNat) = true)
    (hdc : decide (d.toNat ≤ c.toNat) = true) : c = d := by
  rw [decide_eq_true_eq] at hcd hdc
  exact Char.toNat_inj.1 (by omega)

/-- The order of texts is transitive. -/
private theorem atMost_trans (s t u : Text) (hst : atMost s t = true) (htu : atMost t u = true) :
    atMost s u = true := by
  rw [atMost_eq_lexical] at hst htu ⊢
  refine lexical_trans ?_ toNat_antisymm hst htu
  intro c d e hcd hde
  rw [decide_eq_true_eq] at hcd hde ⊢
  omega

/-- Two texts that come before each other are equal. -/
theorem atMost_antisymm (s t : Text) (hst : atMost s t = true) (hts : atMost t s = true) :
    s = t := by
  rw [atMost_eq_lexical] at hst hts
  exact lexical_antisymm toNat_antisymm hst hts

end Text

/-- Whether a place is another one or comes before it, name by name. -/
def Place.atMost (s t : Place) : Bool := lexical Text.atMost s t

namespace FileTree

variable {tree : FileTree}

-- ================================================== entries by a name

section
variable {β : Type}

/-- The entries at the places that have a name, with their names. -/
def namedBy (tree : FileTree) (name? : Place → Option β) : List (β × Node) :=
  tree.entries.filterMap fun (place, node) => (name? place).map (·, node)

variable {name? : Place → Option β} {placeOf : β → Place}
  (hname : ∀ place name, name? place = some name → place = placeOf name)
include hname

/-- In a sound tree the named entries are what stands at the places of the
names. -/
private theorem mem_namedBy (h : tree.Sound) {name : β} {node : Node} :
    (name, node) ∈ tree.namedBy name? ↔
      name? (placeOf name) = some name ∧ placeOf name ≠ [] ∧
        tree.get? (placeOf name) = some node := by
  rw [namedBy, List.mem_filterMap]
  constructor
  · rintro ⟨⟨place, found⟩, hmem, hfound⟩
    obtain ⟨name', hplace, heq⟩ := Option.map_eq_some_iff.1 hfound
    cases heq
    obtain rfl := hname place name hplace
    exact ⟨hplace, h.mem_entries_iff.1 hmem⟩
  · rintro ⟨hplace, hget⟩
    refine ⟨(placeOf name, node), h.mem_entries_iff.2 hget, ?_⟩
    show (name? (placeOf name)).map (·, node) = some (name, node)
    rw [hplace]
    rfl

/-- No name is given twice, since no place is taken twice. -/
private theorem nodup_namedBy (h : tree.Sound) : ((tree.namedBy name?).map (·.1)).Nodup := by
  rw [List.Nodup, List.pairwise_map, namedBy, List.pairwise_filterMap]
  refine (List.pairwise_map.1 h.distinct).imp ?_
  intro a b hne x hx y hy
  obtain ⟨name, hplace, rfl⟩ := Option.map_eq_some_iff.1 hx
  obtain ⟨name', hplace', rfl⟩ := Option.map_eq_some_iff.1 hy
  rintro rfl
  exact hne ((hname _ _ hplace).trans (hname _ _ hplace').symm)

end

-- ================================================ the names in a directory

/-- The name of an entry in its directory is the last one. -/
private theorem nameIn?_concat (directory : Place) (name : Name) :
    nameIn? directory (directory ++ [name]) = some name := by
  simp [nameIn?]

/-- An entry that has a name in a directory stands right there. -/
private theorem eq_concat_of_nameIn? {directory place : Place} {name : Name}
    (h : nameIn? directory place = some name) : place = directory ++ [name] := by
  unfold nameIn? at h
  split at h
  · next last hlast =>
    split at h
    · next hdirectory =>
      cases h
      obtain ⟨front, rfl⟩ := List.getLast?_eq_some_iff.1 hlast
      rw [← hdirectory, List.dropLast_concat]
    · cases h
  · cases h

/-- What a directory lists is an entry, in any tree. -/
theorem mem_entries_of_mem_children {directory : Place} {name : Name} {node : Node}
    (h : (name, node) ∈ tree.children directory) : (directory ++ [name], node) ∈ tree.entries := by
  rw [children, List.mem_mergeSort, List.mem_filterMap] at h
  obtain ⟨⟨place, found⟩, hmem, hfound⟩ := h
  obtain ⟨name', hplace, heq⟩ := Option.map_eq_some_iff.1 hfound
  cases heq
  rwa [← eq_concat_of_nameIn? hplace]

/-- A directory lists under a name what stands there. -/
theorem mem_children (h : tree.Sound) {directory : Place} {name : Name} {node : Node} :
    (name, node) ∈ tree.children directory ↔ tree.get? (directory ++ [name]) = some node := by
  have hmem : (name, node) ∈ tree.namedBy (nameIn? directory) ↔
      nameIn? directory (directory ++ [name]) = some name ∧ directory ++ [name] ≠ [] ∧
        tree.get? (directory ++ [name]) = some node :=
    mem_namedBy (fun _ _ => eq_concat_of_nameIn?) h
  rw [nameIn?_concat] at hmem
  rw [children, List.mem_mergeSort]
  exact hmem.trans ⟨fun hget => hget.2.2, fun hget => ⟨rfl, by simp, hget⟩⟩

/-- A directory lists its names in order, each once. -/
theorem pairwise_children (h : tree.Sound) (directory : Place) :
    (tree.children directory).Pairwise fun a b => Text.atMost a.1 b.1 = true ∧ a.1 ≠ b.1 := by
  have hsorted : (tree.children directory).Pairwise fun a b => Text.atMost a.1 b.1 = true := by
    apply List.pairwise_mergeSort
    · intro a b c
      exact Text.atMost_trans a.1 b.1 c.1
    · intro a b
      rw [Bool.or_eq_true]
      exact Text.atMost_total a.1 b.1
  have hdistinct : ((tree.children directory).map (·.1)).Nodup :=
    ((List.mergeSort_perm _ _).map _).nodup_iff.2 (nodup_namedBy (fun _ _ => eq_concat_of_nameIn?) h)
  exact hsorted.and (List.pairwise_map.1 hdistinct)

-- ========================================================= the itinerary

/-- What a walk gets to below a directory, in order. The names lead there
from `top`. -/
def itinerary (tree : FileTree) (top : Place) :
    (levels : Nat) → (names : Place) → List (Place × Node)
  | 0, _ => []
  | levels + 1, names =>
    (tree.children (top ++ names)).flatMap fun (name, node) =>
      (names ++ [name], node) ::
        if node.isDirectory then itinerary tree top levels (names ++ [name]) else []

/-- The stretch of an itinerary for one entry of a directory. -/
def branch (tree : FileTree) (top : Place) (levels : Nat) (names : Place) (child : Name × Node) :
    List (Place × Node) :=
  (names ++ [child.1], child.2) ::
    if child.2.isDirectory then tree.itinerary top levels (names ++ [child.1]) else []

/-- An itinerary goes through the children, and through each of them at
once. -/
private theorem itinerary_succ (top names : Place) (levels : Nat) :
    tree.itinerary top (levels + 1) names
      = (tree.children (top ++ names)).flatMap (tree.branch top levels names) := rfl

/-- An itinerary gets to everything below a place, down to its depth. -/
private theorem mem_itinerary (h : tree.Sound) {top names place : Place} {levels : Nat}
    {node : Node} :
    (place, node) ∈ tree.itinerary top levels names ↔
      ∃ more, place = names ++ more ∧ more ≠ [] ∧ more.length ≤ levels ∧
        tree.get? (top ++ place) = some node := by
  induction levels generalizing names with
  | zero =>
      constructor
      · intro hmem
        simp [itinerary] at hmem
      · rintro ⟨more, -, hne, hlength, -⟩
        exact absurd (List.length_eq_zero_iff.1 (by omega)) hne
  | succ levels ih =>
      rw [itinerary_succ, List.mem_flatMap]
      constructor
      · rintro ⟨⟨name, child⟩, hchild, hmem⟩
        rw [mem_children h, List.append_assoc] at hchild
        rw [branch, List.mem_cons] at hmem
        rcases hmem with hhere | hbelow
        · cases hhere
          exact ⟨[name], rfl, by simp, by simp, hchild⟩
        · split at hbelow
          · obtain ⟨more, rfl, hne, hlength, hget⟩ := ih.1 hbelow
            exact ⟨name :: more, by simp, by simp, by simpa using hlength, hget⟩
          · simp at hbelow
      · rintro ⟨more, rfl, hne, hlength, hget⟩
        obtain ⟨name, more, rfl⟩ := List.exists_cons_of_ne_nil hne
        -- the first name is an entry of this directory: the one looked for,
        -- or a directory on the way to it
        by_cases hmore : more = []
        · subst hmore
          refine ⟨(name, node), ?_, .head _⟩
          rw [mem_children h, List.append_assoc]
          exact hget
        · have hget' : tree.get? ((top ++ (names ++ [name])) ++ more) = some node := by
            simpa using hget
          have hdirectory := h.directory_of_below hmore hget'
          refine ⟨(name, .directory), ?_, .tail _ ?_⟩
          · rw [mem_children h, List.append_assoc]
            exact hdirectory
          · show (names ++ name :: more, node) ∈ tree.itinerary top levels (names ++ [name])
            rw [ih]
            refine ⟨more, by simp, hmore, ?_, by simpa using hget⟩
            rw [List.length_cons] at hlength
            omega

/-- What a branch gets to stands in the tree. -/
theorem get?_of_mem_branch (h : tree.Sound) {top names : Place} {levels : Nat}
    {child : Name × Node} (hchild : child ∈ tree.children (top ++ names)) {entry : Place × Node}
    (hmem : entry ∈ tree.branch top levels names child) :
    entry.1 ≠ [] ∧ tree.get? (top ++ entry.1) = some entry.2 := by
  have hentry : (entry.1, entry.2) ∈ tree.itinerary top (levels + 1) names :=
    List.mem_flatMap.2 ⟨child, hchild, hmem⟩
  obtain ⟨more, hplace, hne, -, hget⟩ := (mem_itinerary h).1 hentry
  exact ⟨by simp [hplace, hne], hget⟩

/-- What a branch gets to is its child, or stands below it. -/
private theorem below_of_mem_branch (h : tree.Sound) {top names : Place} {levels : Nat}
    {child : Name × Node} {entry : Place × Node}
    (hmem : entry ∈ tree.branch top levels names child) :
    ∃ more, entry.1 = names ++ child.1 :: more := by
  rw [branch, List.mem_cons] at hmem
  rcases hmem with rfl | hbelow
  · exact ⟨[], rfl⟩
  · split at hbelow
    · obtain ⟨more, hplace, -⟩ := (mem_itinerary h).1 hbelow
      exact ⟨more, by simp [hplace]⟩
    · simp at hbelow

/-- An itinerary goes by the order of the places, and nowhere twice. -/
theorem pairwise_itinerary (h : tree.Sound) (top names : Place) (levels : Nat) :
    (tree.itinerary top levels names).Pairwise fun a b =>
      Place.atMost a.1 b.1 = true ∧ a.1 ≠ b.1 := by
  induction levels generalizing names with
  | zero => exact .nil
  | succ levels ih =>
      rw [itinerary_succ, List.pairwise_flatMap]
      constructor
      · -- an entry and what is below it
        rintro ⟨name, node⟩ -
        rw [branch, List.pairwise_cons]
        constructor
        · rintro ⟨place, found⟩ hmem
          split at hmem
          · obtain ⟨more, rfl, hne, -⟩ := (mem_itinerary h).1 hmem
            have happend : Place.atMost (names ++ [name] ++ []) (names ++ [name] ++ more) = true := by
              rw [Place.atMost, lexical_append_left]
              rfl
            rw [List.append_nil] at happend
            exact ⟨happend, by simpa using hne⟩
          · simp at hmem
        · split
          · exact ih (names ++ [name])
          · exact .nil
      · -- two entries of one directory
        refine (pairwise_children h (top ++ names)).imp ?_
        intro a b hab entry hmem entry' hmem'
        obtain ⟨hle, hne⟩ := hab
        obtain ⟨more, hplace⟩ := below_of_mem_branch h hmem
        obtain ⟨more', hplace'⟩ := below_of_mem_branch h hmem'
        rw [hplace, hplace', Place.atMost, lexical_append_left, lexical_cons_of_ne hne]
        exact ⟨hle, by simpa using fun he => absurd he hne⟩

-- ============================================================= what is below

/-- The names that lead to a place from `top`, if it is below it, and, if
`recursive` is not set, directly in it. -/
def namesBelow? (top : Place) (recursive : Bool) (place : Place) : Option Place :=
  let names := place.drop top.length
  if top.isPrefixOf place && names ≠ [] && (recursive || names.length = 1) then some names
  else none

/-- What stands below a directory, by place. -/
def below (tree : FileTree) (top : Place) (recursive : Bool) : List (Place × Node) :=
  (tree.namedBy (namesBelow? top recursive)).mergeSort fun a b => Place.atMost a.1 b.1

/-- A place below another is named by the rest of its names. -/
private theorem namesBelow?_append {top names : Place} {recursive : Bool} :
    namesBelow? top recursive (top ++ names) = some names ↔
      names ≠ [] ∧ (recursive = true ∨ names.length = 1) := by
  unfold namesBelow?
  cases recursive <;> simp [List.isPrefixOf_iff_prefix]

/-- What is named below a place stands at the place with those names behind. -/
private theorem eq_append_of_namesBelow? {top place names : Place} {recursive : Bool}
    (h : namesBelow? top recursive place = some names) : place = top ++ names := by
  unfold namesBelow? at h
  simp only at h
  split at h
  · next hbelow =>
    simp only [Bool.and_eq_true, List.isPrefixOf_iff_prefix] at hbelow
    obtain ⟨rest, rfl⟩ := hbelow.1.1
    rw [List.drop_left] at h
    cases h
    rfl
  · cases h

/-- The entries below a place, or right in it, are found by name. -/
theorem mem_below (h : tree.Sound) {top names : Place} {recursive : Bool} {node : Node} :
    (names, node) ∈ tree.below top recursive ↔
      names ≠ [] ∧ (recursive = true ∨ names.length = 1) ∧
        tree.get? (top ++ names) = some node := by
  have hmem : (names, node) ∈ tree.namedBy (namesBelow? top recursive) ↔
      namesBelow? top recursive (top ++ names) = some names ∧ top ++ names ≠ [] ∧
        tree.get? (top ++ names) = some node :=
    mem_namedBy (fun _ _ => eq_append_of_namesBelow?) h
  rw [namesBelow?_append] at hmem
  rw [below, List.mem_mergeSort]
  refine hmem.trans ⟨?_, ?_⟩
  · rintro ⟨⟨hne, hdepth⟩, -, hget⟩
    exact ⟨hne, hdepth, hget⟩
  · rintro ⟨hne, hdepth, hget⟩
    exact ⟨⟨hne, hdepth⟩, by simp [hne], hget⟩

/-- No entry below a place is found twice. -/
theorem nodup_below (h : tree.Sound) (top : Place) (recursive : Bool) :
    ((tree.below top recursive).map (·.1)).Nodup :=
  ((List.mergeSort_perm _ _).map _).nodup_iff.2 (nodup_namedBy (fun _ _ => eq_append_of_namesBelow?) h)

/-- The entries below a place are found in the order of their places. -/
theorem pairwise_below (tree : FileTree) (top : Place) (recursive : Bool) :
    (tree.below top recursive).Pairwise fun a b => Place.atMost a.1 b.1 = true := by
  apply List.pairwise_mergeSort
  · intro a b c
    exact lexical_trans Text.atMost_trans Text.atMost_antisymm
  · intro a b
    rw [Bool.or_eq_true]
    exact lexical_total Text.atMost_total a.1 b.1

/-- No place is longer than the tree is high. -/
theorem length_le_height {place : Place} (h : place ∈ tree.places) :
    place.length ≤ tree.height := by
  have hmax (lengths : List Nat) (least : Nat) :
      least ≤ lengths.foldl max least ∧ ∀ n ∈ lengths, n ≤ lengths.foldl max least := by
    induction lengths generalizing least with
    | nil => simp
    | cons n lengths ih =>
        obtain ⟨hleast, hall⟩ := ih (max least n)
        rw [List.foldl_cons]
        refine ⟨by omega, ?_⟩
        intro m hm
        rw [List.mem_cons] at hm
        rcases hm with rfl | hm
        · omega
        · exact hall m hm
  obtain ⟨entry, hentry, rfl⟩ := List.mem_map.1 h
  exact (hmax _ 0).2 _ (List.mem_map.2 ⟨entry, hentry, rfl⟩)

/-- How many levels a walk goes down. -/
def levels (tree : FileTree) (recursive : Bool) : Nat :=
  if recursive then tree.height + 1 else 1

/-- The itinerary of a walk is what is below its start. -/
theorem itinerary_eq_below (h : tree.Sound) (top : Place) (recursive : Bool) :
    tree.itinerary top (tree.levels recursive) [] = tree.below top recursive := by
  have hmem (entry : Place × Node) :
      entry ∈ tree.itinerary top (tree.levels recursive) [] ↔ entry ∈ tree.below top recursive := by
    obtain ⟨names, node⟩ := entry
    rw [mem_itinerary h, mem_below h]
    constructor
    · rintro ⟨more, hmore, hne, hlength, hget⟩
      obtain rfl : names = more := hmore
      refine ⟨hne, ?_, hget⟩
      cases recursive with
      | true => exact .inl rfl
      | false =>
          have hpos := List.length_pos_iff.2 hne
          have hone : names.length ≤ 1 := hlength
          exact .inr (by omega)
    · rintro ⟨hne, hdepth, hget⟩
      refine ⟨names, rfl, hne, ?_, hget⟩
      cases recursive with
      | true =>
          have hheight := length_le_height (mem_places_of_get? (by simp [hne]) hget)
          rw [List.length_append] at hheight
          show names.length ≤ tree.height + 1
          omega
      | false =>
          have hone := hdepth.resolve_left (by simp)
          show names.length ≤ 1
          omega
  have hitinerary := pairwise_itinerary h top [] (tree.levels recursive)
  -- two lists in the same strict order with the same members
  refine List.Perm.eq_of_pairwise ?_ (hitinerary.imp fun hab => hab.1)
    (pairwise_below tree top recursive) ?_
  · rintro ⟨names, node⟩ ⟨names', node'⟩ ha hb hle hge
    obtain rfl : names = names' := lexical_antisymm Text.atMost_antisymm hle hge
    have hnode := ((mem_below h).1 ((hmem _).1 ha)).2.2
    have hnode' := ((mem_below h).1 hb).2.2
    rw [hnode] at hnode'
    cases hnode'
    rfl
  · rw [List.perm_ext_iff_of_nodup]
    · exact hmem
    · exact hitinerary.imp fun hab heq => hab.2 (by rw [heq])
    · exact (List.pairwise_map.1 (nodup_below h top recursive)).imp fun hne heq => hne (by rw [heq])

-- ====================================================== the same names

/-- The outline names the same entries, without their contents. -/
private theorem namedBy_outline {β : Type} (tree : FileTree) (name? : Place → Option β) :
    tree.outline.namedBy name?
      = (tree.namedBy name?).map fun child => (child.1, child.2.outline) := by
  rw [namedBy, outline, List.filterMap_map, namedBy, List.map_filterMap]
  congr 1
  funext entry
  show (name? entry.1).map _ = ((name? entry.1).map _).map _
  rw [Option.map_map]
  rfl

/-- A directory of the outline has the same children, without their
contents. -/
private theorem children_outline (tree : FileTree) (directory : Place) :
    tree.outline.children directory
      = (tree.children directory).map fun child => (child.1, child.2.outline) := by
  -- names are sorted, and the outline keeps them
  rw [children, children, List.map_mergeSort (s := fun a b => Text.atMost a.1 b.1)]
  · exact congrArg (List.mergeSort · _) (namedBy_outline tree _)
  · intro a _ b _
    rfl

/-- A tree with the same outline has the same names in its directories,
and the same of them are directories. -/
theorem children_of_outline {tree' : FileTree} (h : tree'.outline = tree.outline)
    (directory : Place) :
    (tree'.children directory).map (fun child => (child.1, child.2.isDirectory))
      = (tree.children directory).map fun child => (child.1, child.2.isDirectory) := by
  have hmap (t : FileTree) : (t.children directory).map (fun child => (child.1, child.2.isDirectory))
      = (t.outline.children directory).map fun child => (child.1, child.2.isDirectory) := by
    rw [children_outline, List.map_map]
    congr 1
    funext child
    obtain ⟨name, node⟩ := child
    cases node <;> rfl
  rw [hmap, h, ← hmap]

end FileTree

end TaggedSource

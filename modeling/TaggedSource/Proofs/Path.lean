/-
Paths that a walk builds. The path of an entry is the path of its
directory, a slash unless the directory's path ends in one, and the name
of the entry. So the text in front of the name is a stem, empty or ending
in a slash, and a stem is all that the path functions see of the
directory: `pieces` and `stepsOf` add up over a stem and a name, `trimEnd`
leaves both alone, and the front of the path is the front of the stem.

What follows is said once for a directory and a name (`pieces_join`,
`fileName?_join`, `stepsOf_sibling`) and once for a row of names from a
root on (`pieces_pathFrom`, `relative?_pathFrom`).
-/
import TaggedSource.FileTree.Plant

namespace TaggedSource.Path

-- ============================================== names, stems and joining

/-- A text that names an entry of a directory. -/
structure IsName (name : Text) : Prop where
  /-- It is not empty. -/
  ne_nil : name ≠ []
  /-- It holds no slash. -/
  no_slash : '/' ∉ name
  /-- It holds no NUL. -/
  no_nul : '\x00' ∉ name
  /-- It is not the name of the directory itself. -/
  ne_dot : name ≠ ['.']
  /-- It is not the name of the directory above. -/
  ne_dots : name ≠ ['.', '.']

instance (name : Text) : Decidable (IsName name) :=
  decidable_of_iff (name ≠ [] ∧ '/' ∉ name ∧ '\x00' ∉ name ∧ name ≠ ['.'] ∧ name ≠ ['.', '.'])
    ⟨fun ⟨a, b, c, d, e⟩ => ⟨a, b, c, d, e⟩, fun ⟨a, b, c, d, e⟩ => ⟨a, b, c, d, e⟩⟩

/-- A text that a name can stand behind. -/
def IsStem (t : Text) : Prop := t = [] ∨ ∃ u, t = u ++ ['/']

/-- What stands in front of the names in a directory. -/
def stem (directory : Text) : Text :=
  if directory.isEmpty || endsInSlash directory then directory else directory ++ ['/']

private theorem isStem_stem (directory : Text) : IsStem (stem directory) := by
  unfold stem
  split
  · next h =>
    obtain h | h := Bool.or_eq_true_iff.1 h
    · exact .inl (List.isEmpty_iff.1 h)
    · have hlast : directory.getLast? = some '/' := by simpa [endsInSlash] using h
      exact .inr (List.getLast?_eq_some_iff.1 hlast)
  · exact .inr ⟨directory, rfl⟩

/-- What is left of a stem is a stem. -/
theorem IsStem.tail {c : Char} {t : Text} (h : IsStem (c :: t)) : IsStem t := by
  obtain h | ⟨u, h⟩ := h
  · cases h
  · cases u with
    | nil =>
        obtain ⟨-, rfl⟩ := List.cons_eq_cons.1 h
        exact .inl rfl
    | cons d u =>
        obtain ⟨-, rfl⟩ := List.cons_eq_cons.1 h
        exact .inr ⟨u, rfl⟩

private theorem IsStem.of_append {s t : Text} (h : IsStem (s ++ t)) : IsStem t := by
  induction s with
  | nil => exact h
  | cons c s ih => exact ih h.tail

/-- A stem is the directory with a slash behind, if it needs one. -/
private theorem stem_eq_append (directory : Text) : ∃ gap, stem directory = directory ++ gap := by
  unfold stem
  split
  · exact ⟨[], (List.append_nil _).symm⟩
  · exact ⟨['/'], rfl⟩

private theorem IsName.not_isAbsolute {name : Text} (h : IsName name) :
    isAbsolute name = false := by
  cases name with
  | nil => rfl
  | cons c name =>
      have hc : c ≠ '/' := fun hc => h.no_slash (by simp [hc])
      simp [isAbsolute, hc]

/-- A name is joined to a directory by its stem. -/
theorem join_eq {directory name : Text} (hname : IsName name) :
    join directory name = stem directory ++ name := by
  unfold join stem
  rw [hname.not_isAbsolute, Bool.false_or]
  by_cases hempty : directory.isEmpty = true
  · rw [if_pos hempty, hempty, Bool.true_or, if_pos rfl, List.isEmpty_iff.1 hempty, List.nil_append]
  · rw [if_neg hempty, Bool.eq_false_iff.2 hempty, Bool.false_or]
    split
    · rfl
    · rw [List.append_assoc, List.singleton_append]

private theorem endsInSlash_append_name {t name : Text} (hname : IsName name) :
    endsInSlash (t ++ name) = false := by
  have hlast : (t ++ name).getLast? = some (name.getLast hname.ne_nil) := by
    rw [List.getLast?_append, List.getLast?_eq_some_getLast hname.ne_nil, Option.some_or]
  have hne : name.getLast hname.ne_nil ≠ '/' := fun h =>
    hname.no_slash (h ▸ List.getLast_mem hname.ne_nil)
  simp [endsInSlash, hlast, hne]

-- ====================================================== pieces and steps

private theorem pieces_nil : pieces [] = [] := rfl

/-- A path is cut into pieces at each slash. -/
private theorem pieces_append_slash (s t : Text) :
    pieces (s ++ '/' :: t) = pieces s ++ pieces t := by
  unfold pieces
  rw [List.splitOn_append_cons_self, List.filter_append]

private theorem pieces_of_no_slash {t : Text} (hne : t ≠ []) (hslash : '/' ∉ t) :
    pieces t = [t] := by
  unfold pieces
  rw [List.splitOn_eq_singleton hslash]
  simp [hne]

private theorem pieces_name {name : Text} (h : IsName name) : pieces name = [name] :=
  pieces_of_no_slash h.ne_nil h.no_slash

/-- The slash behind a directory adds no piece. -/
private theorem pieces_stem (directory : Text) : pieces (stem directory) = pieces directory := by
  unfold stem
  split
  · rfl
  · rw [pieces_append_slash, pieces_nil, List.append_nil]

/-- A name behind a stem is the last piece. -/
private theorem pieces_isStem_append {t name : Text} (ht : IsStem t) (hname : IsName name) :
    pieces (t ++ name) = pieces t ++ [name] := by
  obtain rfl | ⟨u, rfl⟩ := ht
  · rw [List.nil_append, pieces_name hname, pieces_nil, List.nil_append]
  · rw [List.append_assoc, List.singleton_append, pieces_append_slash, pieces_append_slash,
      pieces_name hname, pieces_nil, List.append_nil]

/-- The steps of a path are told on both sides of a slash. -/
private theorem stepsOf_append_slash (s t : Text) :
    stepsOf (s ++ '/' :: t) = stepsOf s ++ stepsOf t := by
  unfold stepsOf
  rw [pieces_append_slash, List.filter_append]

private theorem stepsOf_step {t : Text} (hne : t ≠ []) (hslash : '/' ∉ t) (hdot : t ≠ ['.']) :
    stepsOf t = [t] := by
  rw [stepsOf, pieces_of_no_slash hne hslash]
  simp [hdot]

/-- A slash at the front is no step. -/
theorem stepsOf_slash_cons (t : Text) : stepsOf ('/' :: t) = stepsOf t := by
  have h := stepsOf_append_slash [] t
  rwa [List.nil_append] at h

/-- A dot at the front is no step. -/
theorem stepsOf_dot_slash_cons (t : Text) : stepsOf ('.' :: '/' :: t) = stepsOf t := by
  have h := stepsOf_append_slash ['.'] t
  rwa [List.singleton_append] at h

private theorem stepsOf_isStem_append {t name : Text} (ht : IsStem t) (hname : IsName name) :
    stepsOf (t ++ name) = stepsOf t ++ [name] := by
  unfold stepsOf
  rw [pieces_isStem_append ht hname, List.filter_append]
  simp [hname.ne_dot]

-- =============================================================== trimming

private theorem trimFront_suffix (t : Text) : trimFront t <:+ t := by
  fun_induction trimFront t with
  | case1 t ih => exact ih.trans (List.suffix_cons _ _)
  | case2 => exact List.nil_suffix
  | case3 t ih => exact ih.trans ((List.suffix_cons _ _).trans (List.suffix_cons _ _))
  | case4 t => exact List.suffix_refl _

private theorem trimEnd_isPrefixOf (t : Text) : trimEnd t <+: t := by
  unfold trimEnd
  rw [← List.reverse_suffix, List.reverse_reverse]
  exact trimFront_suffix t.reverse

/-- Trimming stops at a piece that leads somewhere. -/
theorem trimFront_append {piece t : Text} (hne : piece ≠ []) (hslash : '/' ∉ piece)
    (hdot : piece ≠ ['.']) : trimFront (piece ++ t) = piece ++ t := by
  cases piece with
  | nil => exact absurd rfl hne
  | cons c piece =>
      have hc : c ≠ '/' := fun h => hslash (by simp [h])
      cases piece with
      | nil =>
          have hc' : c ≠ '.' := fun h => hdot (by rw [h])
          unfold trimFront
          split <;> simp_all
      | cons d piece =>
          have hd : d ≠ '/' := fun h => hslash (by simp [h])
          unfold trimFront
          split <;> simp_all

private theorem trimEnd_append_name {t name : Text} (hname : IsName name) :
    trimEnd (t ++ name) = t ++ name := by
  unfold trimEnd
  rw [List.reverse_append, trimFront_append, List.reverse_append, List.reverse_reverse,
    List.reverse_reverse]
  · simpa using hname.ne_nil
  · simpa using hname.no_slash
  · intro h
    exact hname.ne_dot (by simpa using congrArg List.reverse h)

/-- What is trimmed leads nowhere. -/
theorem stepsOf_trimEnd (t : Text) : stepsOf (trimEnd t) = stepsOf t := by
  unfold trimEnd
  generalize hr : t.reverse = r
  obtain rfl : t = r.reverse := by rw [← hr, List.reverse_reverse]
  clear hr
  fun_induction trimFront r with
  | case1 r ih =>
      rw [ih, List.reverse_cons, stepsOf_append_slash]
      exact (List.append_nil _).symm
  | case2 => rfl
  | case3 r ih =>
      rw [ih, List.reverse_cons, List.reverse_cons, List.append_assoc, List.singleton_append,
        stepsOf_append_slash]
      exact (List.append_nil _).symm
  | case4 r => rfl

-- ============================================================== the front

/-- The front of a path is empty, a slash, or a `.` with nothing or a
slash behind it. -/
theorem splitFront_cases (path : Text) :
    (splitFront path = ([], path) ∧ isAbsolute path = false ∧ path ≠ ['.'] ∧
        ¬ ['.', '/'] <+: path) ∨
      (∃ rest, path = '/' :: rest ∧ splitFront path = (['/'], rest)) ∨
      path = ['.'] ∧ splitFront path = (['.'], []) ∨
      ∃ rest, path = '.' :: '/' :: rest ∧ splitFront path = (['.'], '/' :: rest) := by
  fun_cases splitFront path with
  | case1 rest => exact .inr (.inl ⟨rest, rfl, rfl⟩)
  | case2 => exact .inr (.inr (.inl ⟨rfl, rfl⟩))
  | case3 rest => exact .inr (.inr (.inr ⟨rest, rfl, rfl⟩))
  | case4 path hslash hdot hdots =>
      refine .inl ⟨rfl, ?_, hdot, ?_⟩
      · cases path with
        | nil => rfl
        | cons c rest =>
            have hc : c ≠ '/' := fun h => hslash rest (by rw [h])
            simp [isAbsolute, hc]
      · rintro ⟨rest, rfl⟩
        exact hdots rest rfl

/-- The front of a path leads nowhere. -/
theorem stepsOf_splitFront (path : Text) : stepsOf (splitFront path).2 = stepsOf path := by
  obtain ⟨h, -⟩ | ⟨rest, rfl, h⟩ | ⟨rfl, h⟩ | ⟨rest, rfl, h⟩ := splitFront_cases path
  · rw [h]
  · rw [h, stepsOf_slash_cons]
  · rfl
  · rw [h, stepsOf_slash_cons, stepsOf_dot_slash_cons]

/-- A piece is a non-empty stretch of the path between slashes. -/
private theorem of_mem_pieces {path piece : Text} (h : piece ∈ pieces path) :
    piece ≠ [] ∧ '/' ∉ piece ∧ ∀ c ∈ piece, c ∈ path := by
  by_cases hslash : '/' ∈ path
  · obtain ⟨front, rest, rfl, hfront⟩ := List.eq_append_cons_of_mem hslash
    rw [pieces_append_slash, List.mem_append] at h
    rcases h with h | h
    · by_cases hne : front = []
      · rw [hne] at h
        cases h
      · rw [pieces_of_no_slash hne hfront, List.mem_singleton] at h
        subst h
        exact ⟨hne, hfront, fun c hc => List.mem_append_left _ hc⟩
    · obtain ⟨hne, hnot, hsub⟩ := of_mem_pieces h
      exact ⟨hne, hnot, fun c hc => List.mem_append_right _ (.tail _ (hsub c hc))⟩
  · by_cases hne : path = []
    · rw [hne] at h
      cases h
    · rw [pieces_of_no_slash hne hslash, List.mem_singleton] at h
      subst h
      exact ⟨hne, hslash, fun c hc => hc⟩
termination_by path.length
decreasing_by
  grind

/-- The file name of a path is its last step, unless that leads up. -/
private theorem fileName?_eq (path : Text) :
    fileName? path = (stepsOf path).getLast?.filter (· ≠ ['.', '.']) := by
  unfold fileName?
  rw [stepsOf_splitFront]
  cases (stepsOf path).getLast? with
  | none => rfl
  | some step => by_cases h : step = ['.', '.'] <;> simp [h, Option.filter]

/-- The file name of a path is a name that a directory can hold. -/
theorem isName_of_fileName? {path name : Text} (h : fileName? path = some name)
    (hnul : '\x00' ∉ path) : IsName name := by
  rw [fileName?_eq, Option.filter_eq_some_iff] at h
  obtain ⟨hlast, hdots⟩ := h
  have hmem := List.mem_of_getLast? hlast
  rw [stepsOf, List.mem_filter, decide_eq_true_eq] at hmem
  obtain ⟨hne, hslash, hsub⟩ := of_mem_pieces hmem.1
  exact ⟨hne, hslash, fun hc => hnul (hsub _ hc), hmem.2, by simpa using hdots⟩

/-- A last piece that leads somewhere down is the file name. -/
theorem fileName?_of_pieces {path name : Text} {front : List Text}
    (h : pieces path = front ++ [name]) (hdot : name ≠ ['.']) (hdots : name ≠ ['.', '.']) :
    fileName? path = some name := by
  rw [fileName?_eq, stepsOf, h, List.filter_append]
  simp [hdot, hdots]

/-- A path without a front has none when more stands behind it. -/
theorem splitFront_append {path t : Text} (h : path ≠ []) (habs : isAbsolute path = false)
    (hdot : path ≠ ['.']) (hdots : ¬ ['.', '/'] <+: path) :
    splitFront (path ++ t) = ([], path ++ t) := by
  obtain ⟨hfront, -⟩ | ⟨rest, hpath, -⟩ | ⟨hpath, -⟩ | ⟨rest, hpath, -⟩ :=
    splitFront_cases (path ++ t)
  · exact hfront
  · obtain ⟨c, path, rfl⟩ := List.exists_cons_of_ne_nil h
    obtain ⟨rfl, -⟩ := List.cons_eq_cons.1 hpath
    simp [isAbsolute] at habs
  · obtain ⟨hpath, -⟩ | ⟨hpath, -⟩ := List.append_eq_singleton_iff.1 hpath
    · exact absurd hpath h
    · exact absurd hpath hdot
  · obtain ⟨c, path, rfl⟩ := List.exists_cons_of_ne_nil h
    obtain ⟨rfl, htail⟩ := List.cons_eq_cons.1 hpath
    cases path with
    | nil => exact absurd rfl hdot
    | cons d path =>
        obtain ⟨rfl, -⟩ := List.cons_eq_cons.1 htail
        exact absurd ⟨path, rfl⟩ hdots

/-- Nor does it lead anywhere in front of another rest. -/
theorem stepsOf_front_append {path t : Text}
    (h : (splitFront path).1 = ['.'] → t = [] ∨ ∃ u, t = '/' :: u) :
    stepsOf ((splitFront path).1 ++ t) = stepsOf t := by
  have hdot (hfront : (splitFront path).1 = ['.']) :
      stepsOf ((splitFront path).1 ++ t) = stepsOf t := by
    rw [hfront]
    obtain rfl | ⟨u, rfl⟩ := h hfront
    · rfl
    · rw [stepsOf_slash_cons]
      exact stepsOf_dot_slash_cons u
  obtain ⟨hfront, -⟩ | ⟨rest, -, hfront⟩ | ⟨-, hfront⟩ | ⟨rest, -, hfront⟩ := splitFront_cases path
  · rw [hfront, List.nil_append]
  · rw [hfront]
    exact stepsOf_slash_cons t
  · exact hdot (by rw [hfront])
  · exact hdot (by rw [hfront])

/-- The front of a path in a directory is the front of the directory, and
a stem stands between it and the names. -/
theorem splitFront_stem {directory : Text} (h : directory ≠ []) :
    ∃ rest, IsStem rest ∧ (splitFront directory).1 ++ rest = stem directory ∧
      ((splitFront directory).1 = ['.'] → ∃ u, rest = '/' :: u) ∧
      ∀ t, splitFront (stem directory ++ t) = ((splitFront directory).1, rest ++ t) := by
  have hstem := isStem_stem directory
  obtain ⟨gap, hgap⟩ := stem_eq_append directory
  obtain ⟨hfront, habs, hdot, hdots⟩ | ⟨rest, rfl, hfront⟩ | ⟨rfl, hfront⟩ | ⟨rest, rfl, hfront⟩ :=
    splitFront_cases directory
  · refine ⟨stem directory, hstem, by rw [hfront, List.nil_append], by simp [hfront], fun t => ?_⟩
    rw [hfront, hgap, List.append_assoc]
    exact splitFront_append h habs hdot hdots
  · rw [hgap] at hstem
    refine ⟨rest ++ gap, hstem.tail, by rw [hfront, hgap]; rfl, by simp [hfront], fun t => ?_⟩
    rw [hfront, hgap]
    rfl
  · exact ⟨['/'], .inr ⟨[], rfl⟩, rfl, fun _ => ⟨[], rfl⟩, fun t => rfl⟩
  · rw [hgap] at hstem
    refine ⟨'/' :: rest ++ gap, hstem.tail, by rw [hfront, hgap]; rfl, fun _ => ⟨_, rfl⟩,
      fun t => ?_⟩
    rw [hfront, hgap]
    rfl

-- ====================================================== a path in a directory

section
variable {directory name : Text} (hname : IsName name)
include hname

theorem pieces_join : pieces (join directory name) = pieces directory ++ [name] := by
  rw [join_eq hname, pieces_isStem_append (isStem_stem directory) hname, pieces_stem]

theorem endsInSlash_join : endsInSlash (join directory name) = false := by
  rw [join_eq hname]
  exact endsInSlash_append_name hname

theorem isAbsolute_join : isAbsolute (join directory name) = isAbsolute directory := by
  rw [join_eq hname]
  cases directory with
  | nil => exact hname.not_isAbsolute
  | cons c directory =>
      obtain ⟨gap, hgap⟩ := stem_eq_append (c :: directory)
      rw [hgap]
      rfl

theorem join_ne_nil : join directory name ≠ [] := by
  rw [join_eq hname]
  simp [hname.ne_nil]

/-- A joined path is one that a call takes, if the directory's is. -/
theorem nul_not_mem_join (hnul : '\x00' ∉ directory) : '\x00' ∉ join directory name := by
  rw [join_eq hname, stem]
  split <;> simp [hnul, hname.no_nul]

variable (hdirectory : directory ≠ [])
include hdirectory

/-- The file name of a path in a directory is the name. -/
theorem fileName?_join : fileName? (join directory name) = some name := by
  obtain ⟨rest, hrest, -, -, hfront⟩ := splitFront_stem hdirectory
  unfold fileName?
  rw [join_eq hname, hfront, stepsOf_isStem_append hrest hname]
  simp [hname.ne_dots]

/-- A path in a directory without its last step: the directory, but for
slashes and dots at its end. -/
theorem withoutLast_join : ∃ rest,
    (splitFront directory).1 ++ rest = stem directory ∧
    ((splitFront directory).1 = ['.'] → ∃ u, rest = '/' :: u) ∧
    withoutLast (join directory name) = (splitFront directory).1 ++ trimEnd rest := by
  obtain ⟨rest, hrest, hstem, hdot, hfront⟩ := splitFront_stem hdirectory
  refine ⟨rest, hstem, hdot, ?_⟩
  have hdrop : (name.reverse ++ rest.reverse).dropWhile (· ≠ '/') = rest.reverse := by
    rw [List.dropWhile_append_of_pos]
    · obtain rfl | ⟨u, rfl⟩ := hrest
      · rfl
      · simp
    · intro c hc
      have hne : c ≠ '/' := fun h => hname.no_slash (by simpa [h] using hc)
      simpa using hne
  unfold withoutLast
  rw [join_eq hname, hfront]
  simp only
  rw [trimEnd_append_name hname, List.reverse_append, hdrop, List.reverse_reverse]

/-- Without its last step, a path in a directory leads to the directory. -/
theorem stepsOf_withoutLast_join :
    stepsOf (withoutLast (join directory name)) = stepsOf directory := by
  obtain ⟨rest, hstem, hdot, h⟩ := withoutLast_join hname hdirectory
  have htrim (hfront : (splitFront directory).1 = ['.']) :
      trimEnd rest = [] ∨ ∃ u, trimEnd rest = '/' :: u := by
    obtain ⟨u, hu⟩ := hdot hfront
    obtain ⟨v, hv⟩ := trimEnd_isPrefixOf rest
    cases htrim : trimEnd rest with
    | nil => exact .inl rfl
    | cons c t =>
        rw [htrim, hu] at hv
        obtain ⟨rfl, -⟩ := List.cons_eq_cons.1 hv
        exact .inr ⟨t, rfl⟩
  calc stepsOf (withoutLast (join directory name))
      = stepsOf rest := by rw [h, stepsOf_front_append htrim, stepsOf_trimEnd]
    _ = stepsOf (stem directory) := by
        rw [← hstem, stepsOf_front_append fun hfront => .inr (hdot hfront)]
    _ = stepsOf directory := by rw [stepsOf, stepsOf, pieces_stem]

/-- Taking the last name off leaves no more than the stem. -/
private theorem withoutLast_join_isPrefixOf :
    withoutLast (join directory name) <+: stem directory := by
  obtain ⟨rest, hstem, -, h⟩ := withoutLast_join hname hdirectory
  rw [h, ← hstem]
  exact (List.prefix_append_right_inj _).2 (trimEnd_isPrefixOf rest)

/-- Taking the last name off leaves the start of the path. -/
private theorem isAbsolute_withoutLast_join :
    isAbsolute (withoutLast (join directory name)) = isAbsolute directory := by
  obtain ⟨rest, hstem, -, h⟩ := withoutLast_join hname hdirectory
  obtain ⟨hfront, habs, -⟩ | ⟨_, rfl, hfront⟩ | ⟨rfl, hfront⟩ | ⟨_, rfl, hfront⟩ :=
    splitFront_cases directory
  · obtain ⟨gap, hgap⟩ := stem_eq_append directory
    obtain ⟨v, hv⟩ := withoutLast_join_isPrefixOf hname hdirectory
    obtain ⟨c, directory, rfl⟩ := List.exists_cons_of_ne_nil hdirectory
    cases hbase : withoutLast (join (c :: directory) name) with
    | nil => rw [habs]; rfl
    | cons d base =>
        rw [hbase, hgap] at hv
        obtain ⟨rfl, -⟩ := List.cons_eq_cons.1 hv
        rfl
  · rw [h, hfront]
    rfl
  · rw [h, hfront]
    rfl
  · rw [h, hfront]
    rfl

/-- What a path beside another leads to: another name in the directory. -/
theorem sibling_join (other : Text) : ∃ base, sibling (join directory name) other = join base other ∧
    stepsOf base = stepsOf directory ∧ isAbsolute base = isAbsolute directory ∧
    ('\x00' ∉ directory → '\x00' ∉ base) := by
  refine ⟨withoutLast (join directory name), rfl, stepsOf_withoutLast_join hname hdirectory,
    isAbsolute_withoutLast_join hname hdirectory, fun hnul hmem => hnul ?_⟩
  have hstem := (withoutLast_join_isPrefixOf hname hdirectory).subset hmem
  unfold stem at hstem
  split at hstem
  · exact hstem
  · simpa using hstem

end

/-- A path that ends in a name is the name in a directory. -/
theorem exists_join_of_pieces {path name : Text} {front : List Text} (hname : IsName name)
    (hpieces : pieces path = front ++ [name]) (hslash : endsInSlash path = false) :
    ∃ directory, path = join directory name ∧ pieces directory = front := by
  by_cases hmem : '/' ∈ path
  · -- the path is cut at its last slash
    obtain ⟨last, rest, hreverse, hlast⟩ := List.eq_append_cons_of_mem (List.mem_reverse.2 hmem)
    have hpath : path = rest.reverse ++ '/' :: last.reverse := by
      simpa using congrArg List.reverse hreverse
    have hne : last.reverse ≠ [] := by
      intro hnil
      simp [hpath, hnil, endsInSlash] at hslash
    rw [hpath, pieces_append_slash, pieces_of_no_slash hne (by simpa using hlast)] at hpieces
    obtain ⟨hfront, hname'⟩ := List.append_inj' hpieces rfl
    cases hname'
    refine ⟨rest.reverse ++ ['/'], ?_, ?_⟩
    · rw [hpath, join_eq hname, stem, if_pos (by simp [endsInSlash])]
      simp
    · rw [pieces_append_slash, pieces_nil, List.append_nil, hfront]
  · have hne : path ≠ [] := by
      rintro rfl
      simp [pieces_nil] at hpieces
    have hsingle : [] ++ [path] = front ++ [name] :=
      (pieces_of_no_slash hne hmem).symm.trans hpieces
    obtain ⟨rfl, hname'⟩ := List.append_inj' hsingle rfl
    cases hname'
    exact ⟨[], by rw [join_eq hname]; rfl, pieces_nil⟩

private theorem withoutLast_name {name : Text} (hname : IsName name) : withoutLast name = [] := by
  have hfront : splitFront name = ([], name) := by
    rcases splitFront_cases name with ⟨hfront, -⟩ | ⟨rest, rfl, -⟩ | ⟨rfl, -⟩ | ⟨rest, rfl, -⟩
    · exact hfront
    · exact absurd (by simp) hname.no_slash
    · exact absurd rfl hname.ne_dot
    · exact absurd (by simp) hname.no_slash
  have htrim : trimEnd name = name := trimEnd_append_name (t := []) hname
  have hdrop : (name.reverse ++ []).dropWhile (· ≠ '/') = [] := by
    rw [List.dropWhile_append_of_pos]
    · rfl
    · intro c hc
      simpa using fun h : c = '/' => hname.no_slash (by simpa [h] using hc)
  rw [List.append_nil] at hdrop
  unfold withoutLast
  rw [hfront]
  simp only
  rw [htrim, hdrop]
  rfl

/-- The path of another name beside a name has the same steps in front of
it, and starts at the same place. -/
theorem sibling_of_pieces {path name : Text} {front : List Text} (hname : IsName name)
    (hpieces : pieces path = front ++ [name]) (hslash : endsInSlash path = false) (other : Text) :
    ∃ base, sibling path other = join base other ∧ stepsOf base = front.filter (· ≠ ['.']) ∧
      isAbsolute base = isAbsolute path := by
  obtain ⟨directory, rfl, rfl⟩ := exists_join_of_pieces hname hpieces hslash
  by_cases hne : directory = []
  · subst hne
    refine ⟨[], ?_, rfl, ?_⟩
    · rw [join_eq hname, sibling]
      exact congrArg (join · other) (withoutLast_name hname)
    · rw [isAbsolute_join hname]
  · obtain ⟨base, hsibling, hsteps, habsolute, -⟩ := sibling_join hname hne other
    exact ⟨base, hsibling, hsteps, habsolute.trans (isAbsolute_join hname).symm⟩

-- ================================================= names from a root on

/-- The path that some names lead to from a root. -/
def pathFrom (root : Text) (names : List Text) : Text := names.foldl join root

@[simp]
theorem pathFrom_nil (root : Text) : pathFrom root [] = root := rfl

@[simp]
theorem pathFrom_cons (root : Text) (name : Text) (names : List Text) :
    pathFrom root (name :: names) = pathFrom (join root name) names := rfl

/-- The last of several names is joined last. -/
@[simp]
theorem pathFrom_concat (root : Text) (names : List Text) (name : Text) :
    pathFrom root (names ++ [name]) = join (pathFrom root names) name := by
  simp [pathFrom]

section
variable {root : Text} {names : List Text} (hnames : ∀ name ∈ names, IsName name)
include hnames

private theorem pieces_pathFrom : pieces (pathFrom root names) = pieces root ++ names := by
  induction names generalizing root with
  | nil => simp
  | cons name names ih =>
      rw [pathFrom_cons, ih fun n hn => hnames n (.tail _ hn), pieces_join (hnames name (.head _)),
        List.append_assoc, List.singleton_append]

/-- Joined names are the last steps, in their order. -/
theorem stepsOf_pathFrom : stepsOf (pathFrom root names) = stepsOf root ++ names := by
  have hkeep : names.filter (fun name => decide (name ≠ ['.'])) = names := by
    rw [List.filter_eq_self]
    intro name hname
    simpa using (hnames name hname).ne_dot
  rw [stepsOf, stepsOf, pieces_pathFrom hnames, List.filter_append, hkeep]

theorem isAbsolute_pathFrom : isAbsolute (pathFrom root names) = isAbsolute root := by
  induction names generalizing root with
  | nil => rfl
  | cons name names ih =>
      rw [pathFrom_cons, ih fun n hn => hnames n (.tail _ hn), isAbsolute_join (hnames name (.head _))]

theorem pathFrom_ne_nil (hroot : root ≠ []) : pathFrom root names ≠ [] := by
  induction names generalizing root with
  | nil => exact hroot
  | cons name names ih =>
      exact ih (fun n hn => hnames n (.tail _ hn)) (join_ne_nil (hnames name (.head _)))

theorem nul_not_mem_pathFrom (hroot : '\x00' ∉ root) : '\x00' ∉ pathFrom root names := by
  induction names generalizing root with
  | nil => exact hroot
  | cons name names ih =>
      exact ih (fun n hn => hnames n (.tail _ hn)) (nul_not_mem_join (hnames name (.head _)) hroot)

/-- Names from a root on are the names as a path behind the stem of the
root. -/
theorem pathFrom_eq (h : names ≠ []) :
    pathFrom root names = stem root ++ FileTree.pathOf names := by
  induction names generalizing root with
  | nil => exact absurd rfl h
  | cons name names ih =>
      have hname := hnames name (.head _)
      cases names with
      | nil => simp [pathFrom, join_eq hname, FileTree.pathOf]
      | cons next names =>
          have hstem : stem (join root name) = join root name ++ ['/'] := by
            unfold stem
            simp [endsInSlash_join hname, join_ne_nil hname]
          rw [pathFrom_cons, ih (fun n hn => hnames n (.tail _ hn)) (by simp), hstem, join_eq hname]
          simp [FileTree.pathOf, List.intercalate_cons_cons]

end

-- ==================================================== from the root to it

/-- A text that begins and ends with a step, so that it is not trimmed. -/
def IsTrim (t : Text) : Prop := trimFront t = t ∧ trimEnd t = t

private theorem pathOf_cons (name : Text) {names : List Text} (h : names ≠ []) :
    FileTree.pathOf (name :: names) = name ++ '/' :: FileTree.pathOf names := by
  rw [FileTree.pathOf, List.intercalate_cons_of_ne_nil h, List.append_assoc, List.singleton_append]
  rfl

/-- The path of a place ends in its last name. -/
private theorem exists_pathOf_concat (names : List Text) (name : Text) :
    ∃ t, FileTree.pathOf (names ++ [name]) = t ++ name := by
  induction names with
  | nil => exact ⟨[], List.intercalate_singleton⟩
  | cons next names ih =>
      obtain ⟨t, ht⟩ := ih
      exact ⟨next ++ '/' :: t, by rw [List.cons_append, pathOf_cons next (by simp), ht]; simp⟩

/-- Names as a path are trim. -/
theorem isTrim_pathOf {names : List Text} (hnames : ∀ name ∈ names, IsName name)
    (h : names ≠ []) : IsTrim (FileTree.pathOf names) := by
  constructor
  · obtain ⟨name, names, rfl⟩ := List.exists_cons_of_ne_nil h
    have hname := hnames name (.head _)
    have htrim (t : Text) : trimFront (name ++ t) = name ++ t :=
      trimFront_append hname.ne_nil hname.no_slash hname.ne_dot
    cases names with
    | nil => simpa [FileTree.pathOf] using htrim []
    | cons next names =>
        rw [pathOf_cons name (by simp)]
        exact htrim _
  · obtain ⟨t, ht⟩ := exists_pathOf_concat names.dropLast (names.getLast h)
    rw [List.dropLast_concat_getLast] at ht
    rw [ht]
    exact trimEnd_append_name (hnames _ (List.getLast_mem h))

/-- Slashes and dots in front make no difference to the steps dropped. -/
theorem dropSteps?_congr {steps : List Text} {s t : Text} (h : trimFront s = trimFront t) :
    dropSteps? steps s = dropSteps? steps t := by
  cases steps with
  | nil => rw [dropSteps?, dropSteps?, h]
  | cons step steps => rw [dropSteps?, dropSteps?, h]

/-- A stem is empty, begins with a slash or with `.` and a slash, or
begins with a step. -/
theorem IsStem.cases {t : Text} (h : IsStem t) :
    t = [] ∨ (∃ u, t = '/' :: u ∧ IsStem u) ∨ (∃ u, t = '.' :: '/' :: u ∧ IsStem u) ∨
      ∃ step u, t = step ++ '/' :: u ∧ IsStem u ∧ step ≠ [] ∧ '/' ∉ step ∧ step ≠ ['.'] := by
  by_cases hmem : '/' ∈ t
  · obtain ⟨step, u, rfl, hstep⟩ := List.eq_append_cons_of_mem hmem
    have hu : IsStem u := h.of_append.tail
    by_cases hnil : step = []
    · exact .inr (.inl ⟨u, by rw [hnil, List.nil_append], hu⟩)
    by_cases hdot : step = ['.']
    · exact .inr (.inr (.inl ⟨u, by rw [hdot]; rfl, hu⟩))
    · exact .inr (.inr (.inr ⟨step, u, rfl, hu, hnil, hstep, hdot⟩))
  · obtain rfl | ⟨u, rfl⟩ := h
    · exact .inl rfl
    · exact absurd (by simp) hmem

/-- Dropping the steps of a stem leaves what is behind it. -/
theorem dropSteps?_stepsOf {s t : Text} (hs : IsStem s) (ht : IsTrim t) :
    dropSteps? (stepsOf s) (s ++ t) = some t := by
  obtain rfl | ⟨u, rfl, hu⟩ | ⟨u, rfl, hu⟩ | ⟨step, u, rfl, hu, hne, hslash, hdot⟩ := hs.cases
  · show some (trimEnd (trimFront t)) = some t
    rw [ht.1, ht.2]
  · rw [stepsOf_slash_cons, List.cons_append, dropSteps?_congr (t := u ++ t) (by rw [trimFront])]
    exact dropSteps?_stepsOf hu ht
  · rw [stepsOf_dot_slash_cons, List.cons_append, List.cons_append,
      dropSteps?_congr (t := u ++ t) (by rw [trimFront])]
    exact dropSteps?_stepsOf hu ht
  · have hsteps : stepsOf (step ++ '/' :: u) = step :: stepsOf u := by
      rw [stepsOf_append_slash, stepsOf_step hne hslash hdot, List.singleton_append]
    have htake : (step ++ '/' :: (u ++ t)).takeWhile (· ≠ '/') = step := by
      rw [List.takeWhile_append_of_pos]
      · simp
      · intro c hc
        simpa using fun h : c = '/' => hslash (h ▸ hc)
    have hdrop : (step ++ '/' :: (u ++ t)).dropWhile (· ≠ '/') = '/' :: (u ++ t) := by
      rw [List.dropWhile_append_of_pos]
      · simp
      · intro c hc
        simpa using fun h : c = '/' => hslash (h ▸ hc)
    rw [hsteps, List.append_assoc, List.cons_append, dropSteps?, trimFront_append hne hslash hdot]
    simp only [htake, if_true, hdrop]
    rw [dropSteps?_congr (t := u ++ t) (by rw [trimFront])]
    exact dropSteps?_stepsOf hu ht
termination_by s.length

/-- A path without a front that is not empty has a step. -/
theorem stepsOf_ne_nil {path : Text} (hpath : path ≠ [])
    (h : (splitFront path).1 = []) : stepsOf path ≠ [] := by
  obtain ⟨-, habs, hdot, hdots⟩ | ⟨rest, -, hfront⟩ | ⟨-, hfront⟩ | ⟨rest, -, hfront⟩ :=
    splitFront_cases path
  · by_cases hmem : '/' ∈ path
    · obtain ⟨step, rest, rfl, hslash⟩ := List.eq_append_cons_of_mem hmem
      have hne : step ≠ [] := by
        rintro rfl
        simp [isAbsolute] at habs
      have hdot' : step ≠ ['.'] := by
        rintro rfl
        exact hdots ⟨rest, rfl⟩
      rw [stepsOf_append_slash, stepsOf_step hne hslash hdot']
      simp
    · rw [stepsOf_step hpath hmem hdot]
      simp
  · simp [hfront] at h
  · simp [hfront] at h
  · simp [hfront] at h

/-- From the root, the names from the root on lead to where they lead. -/
theorem relative?_pathFrom {root : Text} {names : List Text}
    (hnames : ∀ name ∈ names, IsName name) (h : names ≠ []) (hroot : root ≠ []) :
    relative? root (pathFrom root names) = some (FileTree.pathOf names) := by
  obtain ⟨rest, hrest, hstem, hdot, hfront⟩ := splitFront_stem hroot
  have hsteps : stepsOf rest = stepsOf (splitFront root).2 := by
    rw [stepsOf_splitFront, ← stepsOf_front_append fun hf => .inr (hdot hf), hstem, stepsOf,
      stepsOf, pieces_stem]
  unfold relative?
  rw [pathFrom_eq hnames h, hfront]
  simp only
  rw [if_neg, if_pos trivial, ← hsteps]
  · exact dropSteps?_stepsOf hrest (isTrim_pathOf hnames h)
  · rw [Bool.and_eq_true, List.isEmpty_iff, List.isEmpty_iff, stepsOf_splitFront]
    rintro ⟨hempty, hnone⟩
    exact stepsOf_ne_nil hroot hempty hnone

end TaggedSource.Path

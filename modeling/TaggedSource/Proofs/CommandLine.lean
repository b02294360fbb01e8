/-
When a line asks for a dry run.

A line is read word by word, and a flag is given by the words that name it.
A dry run has one name, a long one; no short option, no value and no
positional stands for it. So a line that gives arguments asks for a dry run
exactly if the word is there, in front of a word `--` (`parse_dryRun`). What
each word does to the flags is said for the word (`takeWord_dryRun`), and
the line is an induction over its words.
-/
import TaggedSource.CommandLine

namespace TaggedSource.CommandLine

-- ================================================================= names

/-- What a key is looked up as stands beside it. -/
private theorem mem_of_lookup {α β : Type} [BEq α] [LawfulBEq α] {key : α} {value : β}
    {entries : List (α × β)} (h : entries.lookup key = some value) : (key, value) ∈ entries := by
  obtain ⟨before, after, rfl, -⟩ := List.lookup_eq_some_iff.1 h
  simp

/-- One long name means the flag. -/
private theorem lookup_longNames {name : Text} :
    longNames.lookup name = some (.flag .dryRun) ↔ name = text "dry-run" := by
  constructor
  · intro h
    have hnames : ∀ entry ∈ longNames, entry.2 = .flag .dryRun → entry.1 = text "dry-run" := by
      decide
    exact hnames _ (mem_of_lookup h) rfl
  · rintro rfl
    decide

/-- No short name means the flag. -/
private theorem lookup_shortNames (c : Char) : shortNames.lookup c ≠ some (.flag .dryRun) := by
  intro h
  have hnames : ∀ entry ∈ shortNames, entry.2 ≠ .flag .dryRun := by decide
  exact hnames _ (mem_of_lookup h) rfl

namespace Draft

variable {d d' : Draft}

-- ========================================================= flags are kept

/-- Naming the profiles sets no flag. -/
private theorem takeProfiles_flags {value : Text} (h : d.takeProfiles value = .ok d') :
    d'.flags = d.flags := by
  unfold takeProfiles at h
  split at h
  · cases h
  · split at h
    · cases h
    · cases h
      rfl

/-- Settling sets no flag. -/
private theorem settle_flags (h : d.settle = .ok d') : d'.flags = d.flags := by
  unfold settle at h
  split at h
  · cases h
    rfl
  · cases h
  · have hflags := takeProfiles_flags h
    exact hflags
  · cases h
    rfl
  · split at h
    · cases h
    · cases h
      rfl

/-- What a step does that begins by completing what is waiting. -/
theorem exists_settled {α : Type} {next : Draft → Except Stop α} {result : α}
    (h : d.settle >>= next = .ok result) :
    ∃ settled, settled.flags = d.flags ∧ next settled = .ok result := by
  cases hsettle : d.settle with
  | error stop =>
      rw [hsettle] at h
      cases h
  | ok settled =>
      rw [hsettle] at h
      exact ⟨settled, settle_flags hsettle, h⟩

/-- No option with a value is a flag. -/
private theorem takeValued_flags {switch : Switch} {value : Text}
    (h : d.takeValued switch value = .ok d') : d'.flags = d.flags := by
  unfold takeValued at h
  split at h
  · obtain ⟨settled, hflags, htake⟩ := exists_settled h
    rw [takeProfiles_flags htake, hflags]
  · cases h

/-- A word that stands for itself sets no flag. -/
private theorem takePositional_flags {value : Text} (h : d.takePositional value = .ok d') :
    d'.flags = d.flags := by
  unfold takePositional at h
  split at h
  · cases h
  · obtain ⟨settled, hflags, htake⟩ := exists_settled h
    cases htake
    exact hflags

-- ======================================================== flags are taken

/-- A switch sets the flag exactly if it is the flag. -/
private theorem takeSwitch_dryRun {switch : Switch} (h : d.takeSwitch switch = .ok d') :
    .dryRun ∈ d'.flags ↔ .dryRun ∈ d.flags ∨ switch = .flag .dryRun := by
  obtain ⟨settled, hflags, htake⟩ := exists_settled h
  rw [← hflags]
  cases switch with
  | help => cases htake
  | version => cases htake
  | profiles =>
      cases htake
      simp
  | flag f =>
      simp only at htake
      split at htake
      · cases htake
      · cases htake
        rw [List.mem_cons, Switch.flag.injEq, or_comm, eq_comm]

/-- Short switches do not set the flag, however many stand in a word. -/
private theorem takeShort_dryRun {word : Text} (h : d.takeShort word = .ok d') :
    .dryRun ∈ d'.flags ↔ .dryRun ∈ d.flags := by
  induction word generalizing d with
  | nil =>
      cases h
      rfl
  | cons c word ih =>
      unfold takeShort at h
      split at h
      · cases h
      · rw [takeValued_flags h]
      · rw [takeValued_flags h]
      · next rest switch hlookup _ _ =>
        cases hswitch : d.takeSwitch switch with
        | error stop =>
            rw [hswitch] at h
            cases h
        | ok taken =>
            rw [hswitch] at h
            have hother : switch ≠ .flag .dryRun := by
              rintro rfl
              exact lookup_shortNames c hlookup
            rw [ih h, takeSwitch_dryRun hswitch, or_iff_left hother]

/-- Of the long switches, the flag's own name sets it. -/
private theorem takeLong_dryRun {word : Text} (h : d.takeLong word = .ok d') :
    .dryRun ∈ d'.flags ↔ .dryRun ∈ d.flags ∨ word = text "dry-run" := by
  unfold takeLong at h
  split at h
  · cases h
  · next switch hlookup =>
    have hword := List.takeWhile_append_dropWhile (p := (· ≠ '=')) (l := word)
    split at h
    · next hdrop =>
      rw [hdrop, List.append_nil] at hword
      rw [takeSwitch_dryRun h, ← lookup_longNames, ← hword, hlookup, Option.some.injEq]
    · next c value hdrop =>
      -- a word with a value has a mark that the name has not
      have hmark : '=' ∈ word := by
        have hc := List.head?_dropWhile_not (· ≠ '=') word
        rw [hdrop] at hc hword
        obtain rfl : c = '=' := by simpa using hc
        rw [← hword]
        simp
      have hname : word ≠ text "dry-run" := by
        rintro rfl
        exact absurd hmark (by decide)
      rw [takeValued_flags h, or_iff_left hname]

/-- A word of the line sets the flag if it is the flag, with both dashes. -/
private theorem takeWord_dryRun {word : Text} (h : d.takeWord word = .ok d') :
    .dryRun ∈ d'.flags ↔ .dryRun ∈ d.flags ∨ word = text "--dry-run" := by
  have hname : text "--dry-run" = '-' :: '-' :: text "dry-run" := by decide
  unfold takeWord at h
  split at h
  · next name =>
    rw [takeLong_dryRun h, hname]
    simp
  · next c names hc =>
    have hother : '-' :: c :: names ≠ text "--dry-run" := by
      intro heq
      rw [hname] at heq
      exact hc (List.cons.inj (List.cons.inj heq).2).1
    rw [takeShort_dryRun h, or_iff_left hother]
  · next hlong _ _ =>
    cases h
    exact (or_iff_left fun heq => hlong _ (heq.trans hname)).symm
  · next hlong _ _ =>
    rw [takePositional_flags h]
    exact (or_iff_left fun heq => hlong _ (heq.trans hname)).symm

/-- Behind `--` no word is a flag. -/
theorem foldlM_takePositional_flags {words : List Text}
    (h : words.foldlM takePositional d = .ok d') : d'.flags = d.flags := by
  induction words generalizing d with
  | nil =>
      cases h
      rfl
  | cons word words ih =>
      rw [List.foldlM_cons] at h
      cases htake : d.takePositional word with
      | error stop =>
          rw [htake] at h
          cases h
      | ok taken =>
          rw [htake] at h
          rw [ih h, takePositional_flags htake]

/-- The words behind a double dash set nothing. -/
private theorem takeWords_dryRun {words : List Text} (h : d.takeWords words = .ok d') :
    .dryRun ∈ d'.flags ↔
      .dryRun ∈ d.flags ∨ text "--dry-run" ∈ words.takeWhile (· ≠ ['-', '-']) := by
  induction words generalizing d with
  | nil =>
      cases h
      simp
  | cons word words ih =>
      unfold takeWords at h
      split at h
      · next hend =>
        rw [foldlM_takePositional_flags h, List.takeWhile_cons_of_neg (by simpa using hend)]
        simp
      · next hgoes =>
        cases htake : d.takeWord word with
        | error stop =>
            rw [htake] at h
            cases h
        | ok taken =>
            rw [htake] at h
            rw [ih h, takeWord_dryRun htake, List.takeWhile_cons_of_pos (by simpa using hgoes),
              List.mem_cons, or_assoc, eq_comm]

/-- The arguments have the flag that the words have set. -/
private theorem finish_dryRun {arguments : Arguments} (h : d.finish = .ok arguments) :
    arguments.dryRun = true ↔ .dryRun ∈ d.flags := by
  obtain ⟨settled, hflags, hfinish⟩ := exists_settled h
  rw [← hflags]
  simp only at hfinish
  split at hfinish
  · cases hfinish
  · split at hfinish
    · cases hfinish
      exact List.contains_iff_mem
    · cases hfinish
  · split at hfinish
    · cases hfinish
      exact List.contains_iff_mem
    · cases hfinish
  · cases hfinish

end Draft

/-- A line asks for a dry run by its word. -/
theorem parse_dryRun {words : List Text} {arguments : Arguments}
    (h : parse words = .ok arguments) :
    arguments.dryRun = true ↔ text "--dry-run" ∈ words.takeWhile (· ≠ ['-', '-']) := by
  unfold parse at h
  cases htake : Draft.takeWords {} words with
  | error stop =>
      rw [htake] at h
      cases h
  | ok draft =>
      rw [htake] at h
      rw [Draft.finish_dryRun h, Draft.takeWords_dryRun htake]
      simp

end TaggedSource.CommandLine

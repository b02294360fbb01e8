/-
Texts and literal search. A text is the list of its characters; offsets
that leave the library count the bytes of its UTF-8 form (`byteSize`).

`cut?` splits a text at the first occurrence of a pattern, and is the one
search of the library: `occursIn` asks whether there is such a split and
`replaceAll` makes it over and over, left to right.
-/

namespace TaggedSource

/-- A text is the list of its characters. -/
abbrev Text := List Char

/-- The text of a string. -/
abbrev text (s : String) : Text := s.toList

namespace Text

/-- The string that a text spells. -/
abbrev spell (t : Text) : String := String.ofList t

/-- The number of bytes in the UTF-8 form of a text. -/
def byteSize : Text → Nat
  | [] => 0
  | c :: rest => (String.utf8EncodeChar c).length + byteSize rest

/-- The bytes of two texts add up. -/
@[simp]
theorem byteSize_append (s t : Text) :
    byteSize (s ++ t) = byteSize s + byteSize t := by
  induction s with
  | nil => simp [byteSize]
  | cons c s ih => simp [byteSize, ih, Nat.add_assoc]

/-- Whether a text is another one or comes before it, character by
character. -/
def atMost : Text → Text → Bool
  | [], _ => true
  | _ :: _, [] => false
  | c :: s, d :: t => c.toNat < d.toNat || (c.toNat = d.toNat && atMost s t)

-- =============================================================== search

/-- What is left of a text once `lead` is taken off its front. -/
def dropLead? : (lead : Text) → Text → Option Text
  | [], rest => some rest
  | _ :: _, [] => none
  | c :: lead, d :: rest => if c = d then dropLead? lead rest else none

/-- A lead comes off exactly the texts that begin with it. -/
theorem dropLead?_eq_some {lead t rest : Text} :
    dropLead? lead t = some rest ↔ t = lead ++ rest := by
  induction lead generalizing t with
  | nil => simp [dropLead?, eq_comm]
  | cons c lead ih =>
    cases t with
    | nil => simp [dropLead?]
    | cons d t =>
      by_cases h : c = d
      · simp [dropLead?, h, ih]
      · simp [dropLead?, h, Ne.symm h]

/-- The parts before and after the first occurrence of `pattern`. -/
def cut? (pattern : Text) : Text → Option (Text × Text)
  | [] => (dropLead? pattern []).map fun rest => ([], rest)
  | c :: t =>
    match dropLead? pattern (c :: t) with
    | some rest => some ([], rest)
    | none => (cut? pattern t).map fun (before, after) => (c :: before, after)

/-- The two parts and the pattern between them make up the text. -/
theorem eq_of_cut? {pattern t before after : Text}
    (h : cut? pattern t = some (before, after)) :
    t = before ++ pattern ++ after := by
  induction t generalizing before with
  | nil =>
    simp only [cut?, Option.map_eq_some_iff, Prod.mk.injEq] at h
    obtain ⟨rest, hr, rfl, rfl⟩ := h
    simpa using dropLead?_eq_some.1 hr
  | cons c t ih =>
    unfold cut? at h
    split at h
    case h_1 rest hr =>
      simp only [Option.some.injEq, Prod.mk.injEq] at h
      obtain ⟨rfl, rfl⟩ := h
      simpa using dropLead?_eq_some.1 hr
    case h_2 =>
      simp only [Option.map_eq_some_iff, Prod.mk.injEq] at h
      obtain ⟨⟨b, a⟩, hba, rfl, rfl⟩ := h
      simp [ih hba]

/-- The parts and the pattern have the length of the text together. -/
theorem length_of_cut? {pattern t before after : Text}
    (h : cut? pattern t = some (before, after)) :
    t.length = before.length + pattern.length + after.length := by
  rw [eq_of_cut? h]
  simp only [List.length_append]

/-- Whether `pattern` stands somewhere in a text. -/
def occursIn (pattern t : Text) : Bool := (cut? pattern t).isSome

-- ========================================================== replacement

/-- A text in which every occurrence of `pattern`, from left to right and
without overlap, is replaced. The empty pattern occurs nowhere. -/
def replaceAll (pattern replacement t : Text) : Text :=
  match _h : cut? pattern t with
  | none => t
  | some (before, after) =>
    if pattern.isEmpty then t
    else before ++ replacement ++ replaceAll pattern replacement after
termination_by t.length
decreasing_by
  have := length_of_cut? ‹_›
  have : pattern ≠ [] := by simp_all
  have := List.length_pos_iff.2 this
  omega

/-- A text without `pattern` stays as it is. -/
theorem replaceAll_of_not_occursIn {pattern replacement t : Text}
    (h : occursIn pattern t = false) :
    replaceAll pattern replacement t = t := by
  unfold replaceAll
  split
  · rfl
  · simp_all [occursIn]

/-- What an occurrence is replaced by decides only the length. -/
theorem replaceAll_length_lt {pattern replacement t : Text}
    (hlt : replacement.length < pattern.length) (h : occursIn pattern t = true) :
    (replaceAll pattern replacement t).length < t.length := by
  have hle : ∀ s : Text, (replaceAll pattern replacement s).length ≤ s.length := by
    intro s
    fun_induction replaceAll pattern replacement s with
    | case1 => exact Nat.le_refl _
    | case2 => exact Nat.le_refl _
    | case3 s before after hcut hne ih =>
      have := length_of_cut? hcut
      simp only [List.length_append]
      omega
  unfold replaceAll
  split
  · simp_all [occursIn]
  · rename_i before after hcut
    have := length_of_cut? hcut
    have := hle after
    split
    · simp_all
    · simp only [List.length_append]
      omega

end Text

end TaggedSource

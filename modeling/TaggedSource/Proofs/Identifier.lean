/-
The words that an identifier takes.

A word that selects a letter gives it, and any other word leaves no trace.
What a draw has taken is therefore a slice of the words: the letters are
those of the words in it that select one, and the last word of it is such a
word, so that the source is left right behind it (`Words.Draws`). One letter
is drawn like this (`draws_letter`), and two draws in a row are a draw
(`Draws.append`), so the loop that fills up an identifier is one too
(`draws_fill`).
-/
import TaggedSource.Random

namespace TaggedSource

namespace Words

variable {words : Words} {n : Nat}

-- ============================================================ the draws

/-- The letters are drawn by taking so many words from place `n` on. -/
structure Draws (words : Words) (n taken : Nat) (letters : Text) : Prop where
  /-- They are the letters of the words that select one, in order. -/
  letters_eq : letters.map some
    = ((words.slice n taken).filter selectsLetter).map fun word => alphabet[letterIndex word]?
  /-- The last word that was taken selects a letter. -/
  last : ∀ word ∈ (words.slice n taken).getLast?, selectsLetter word = true

private theorem slice_add (words : Words) (n p q : Nat) :
    words.slice n (p + q) = words.slice n p ++ words.slice (n + p) q := by
  rw [slice, slice, slice, ← List.map_append, List.range'_append_1]

/-- A word that selects a letter is an index into the alphabet. -/
theorem getElem?_alphabet {word : UInt32} (h : selectsLetter word = true) :
    alphabet[letterIndex word]? = some (alphabet.getD (letterIndex word) '_') := by
  have hlength : alphabet.length = 62 := by decide
  have hlt : letterIndex word < alphabet.length := by simpa [selectsLetter, hlength] using h
  rw [List.getD_eq_getElem?_getD, List.getElem?_eq_getElem hlt, Option.getD_some]

/-- Where no word is taken, no letter is drawn. -/
theorem draws_nil (words : Words) (n : Nat) : words.Draws n 0 [] :=
  ⟨rfl, fun _ h => nomatch h⟩

namespace Draws

/-- Where no letter is drawn, no word is taken. -/
theorem eq_zero {taken : Nat} (h : words.Draws n taken []) : taken = 0 := by
  cases taken with
  | zero => rfl
  | succ taken =>
    -- the last word selects a letter, so it would have given one
    obtain ⟨word, hword⟩ := Option.ne_none_iff_exists'.1
      (mt List.getLast?_eq_none_iff.1 (slice_succ words n taken ▸ List.cons_ne_nil _ _))
    have hmem : word ∈ (words.slice n (taken + 1)).filter selectsLetter :=
      List.mem_filter.2 ⟨List.mem_of_getLast? hword, h.last word hword⟩
    rw [List.map_eq_nil_iff.1 h.letters_eq.symm] at hmem
    cases hmem

/-- Each drawn letter is a letter of the alphabet. -/
theorem mem_alphabet {taken : Nat} {letters : Text} (h : words.Draws n taken letters) {c : Char}
    (hc : c ∈ letters) : c ∈ alphabet := by
  have hsome : some c ∈ letters.map some := List.mem_map_of_mem hc
  rw [h.letters_eq] at hsome
  obtain ⟨word, -, hword⟩ := List.mem_map.1 hsome
  exact List.mem_of_getElem? hword

/-- Two draws in a row are one. -/
theorem append {p q : Nat} {letters others : Text} (h : words.Draws n p letters)
    (h' : words.Draws (n + p) q others) : words.Draws n (p + q) (letters ++ others) := by
  refine ⟨?_, fun word hword => ?_⟩
  · rw [slice_add, List.map_append, List.filter_append, List.map_append, h.letters_eq,
      h'.letters_eq]
  · rw [slice_add, List.getLast?_append, Option.mem_def, Option.or_eq_some_iff] at hword
    rcases hword with hword | ⟨-, hword⟩
    · exact h'.last word hword
    · exact h.last word hword

/-- A word that selects no letter goes before a draw and leaves no trace. -/
theorem skip {taken : Nat} {c : Char} {letters : Text}
    (h : words.Draws (n + 1) taken (c :: letters)) (hrejected : ¬ selectsLetter (words n) = true) :
    words.Draws n (taken + 1) (c :: letters) := by
  have hne : words.slice (n + 1) taken ≠ [] := by
    intro hnil
    have hletters := h.letters_eq
    rw [hnil] at hletters
    cases hletters
  refine ⟨?_, fun word hword => ?_⟩
  · rw [slice_succ, List.filter_cons_of_neg hrejected]
    exact h.letters_eq
  · rw [slice_succ, List.getLast?_cons_of_ne_nil hne] at hword
    exact h.last word hword

end Draws

-- ===================================================== what is drawn

namespace Supply

/-- A letter is drawn by taking words up to the first that selects one. -/
theorem draws_letter {count : Nat} (s : words.Supply count) (hpos : 0 < count) :
    ∃ taken, (s.letter hpos).2.taken = s.taken + taken ∧
      words.Draws s.taken taken [(s.letter hpos).1] := by
  fun_induction letter s hpos with
  | case1 s hselects =>
    have hword : selectsLetter (words s.taken) = true := hselects
    refine ⟨1, rfl, ?_, fun word hlast => ?_⟩
    · rw [slice_succ, slice_zero, List.filter_cons_of_pos hword, List.filter_nil,
        List.map_singleton, List.map_singleton, getElem?_alphabet hword]
      rfl
    · cases hlast
      exact hword
  | case2 s hrejected ih =>
    obtain ⟨taken, hstop, hdraws⟩ := ih
    refine ⟨taken + 1, ?_, hdraws.skip hrejected⟩
    rw [hstop, taken_ofFewer, taken_advance, Nat.add_right_comm, Nat.add_assoc]

/-- A text is filled up by drawing the letters that it lacks. -/
theorem draws_fill (length : Nat) (value : Text) (s : words.Supply (length - value.length)) :
    ∃ letters taken, fill length value s = (value ++ letters, s.taken + taken) ∧
      letters.length = length - value.length ∧ words.Draws s.taken taken letters := by
  fun_induction fill length value s with
  | case1 value s hshort c rest hletter ih =>
    obtain ⟨first, hstop, hfirst⟩ := s.draws_letter (Nat.sub_pos_of_lt hshort)
    rw [hletter] at hstop hfirst
    obtain ⟨letters, taken, heq, hlength, hdraws⟩ := ih
    rw [taken_ofFewer, hstop] at heq hdraws
    refine ⟨c :: letters, first + taken, ?_, ?_, hfirst.append hdraws⟩
    · rw [heq, List.append_assoc, List.singleton_append, Nat.add_assoc]
    · rw [List.length_append, List.length_singleton] at hlength
      rw [List.length_cons, hlength]
      omega
  | case2 value s hlong =>
    refine ⟨[], 0, ?_, ?_, draws_nil words s.taken⟩
    · rw [List.append_nil, Nat.add_zero]
    · rw [List.length_nil]
      omega

end Supply

/-- An identifier is an underscore and the letters that are drawn behind
it, cut where nothing was asked for. -/
theorem draws_identifier (length : Nat) (h : words.Yields (length - 1) n) :
    ∃ letters taken,
      words.identifier length n h = (('_' :: letters).take length, n + taken) ∧
        letters.length = length - 1 ∧ words.Draws n taken letters := by
  obtain ⟨letters, taken, heq, hlength, hdraws⟩ := Supply.draws_fill length identifierLead ⟨n, h⟩
  refine ⟨letters, taken, ?_, hlength, hdraws⟩
  rw [identifier, heq]
  rfl

end Words

namespace WordSource

/-- The identifier that a source draws, by the words that it takes. -/
theorem exists_identifier_eq (s : WordSource) (length : Nat) :
    ∃ letters taken,
      s.identifier length = (('_' :: letters).take length, { s with taken := s.taken + taken }) ∧
        letters.length = length - 1 ∧ s.word.Draws s.taken taken letters := by
  obtain ⟨letters, taken, heq, hlength, hdraws⟩ :=
    Words.draws_identifier length (s.yields (length - 1) s.taken)
  refine ⟨letters, taken, ?_, hlength, hdraws⟩
  rw [identifier, heq]

/-- An identifier of one character is the underscore, and takes no word. -/
theorem identifier_one (s : WordSource) : s.identifier 1 = (['_'], s) := by
  obtain ⟨letters, taken, heq, hlength, hdraws⟩ := s.exists_identifier_eq 1
  obtain rfl : letters = [] := List.eq_nil_of_length_eq_zero hlength
  obtain rfl : taken = 0 := hdraws.eq_zero
  exact heq

end WordSource

-- ==================================================== what is needed

namespace Words

/-- Drawing an identifier takes exactly the words that it needs. If enough
of the words to come select a letter, an identifier of the given length is
drawn: the underscore and the letters of the first words that select one,
in order. The source is left right behind the last of these words; nothing
is taken for the empty identifier or the underscore alone. -/
theorem identifier_takes_what_it_needs (words : Words) (length n : Nat)
    (henough : words.Yields (length - 1) n) :
    ∃ value letters taken,
      words.identifier length n henough = (value, n + taken) ∧
      value.length = length ∧
      (0 < length → value = '_' :: letters) ∧
      letters.length = length - 1 ∧
      words.Draws n taken letters ∧
      (length ≤ 1 → taken = 0) ∧
      ∀ s : WordSource, s.word = words → s.taken = n →
        s.identifier length = (value, { s with taken := n + taken }) := by
  obtain ⟨letters, taken, heq, hlength, hdraws⟩ := draws_identifier length henough
  refine ⟨_, letters, taken, heq, ?_, fun hpos => ?_, hlength, hdraws, fun hshort => ?_, ?_⟩
  · rw [List.length_take, List.length_cons]
    omega
  · -- with the underscore, the letters have the length that was asked for
    apply List.take_of_length_le
    rw [List.length_cons]
    omega
  · obtain rfl : letters = [] := List.eq_nil_of_length_eq_zero (by omega)
    exact hdraws.eq_zero
  · rintro s rfl rfl
    rw [WordSource.identifier, heq]

/-- Words of which the second and the fourth select a letter, and no other. -/
def scarceWords : Words := fun n =>
  [0xFC000000, 0x08000000, 0xF8000000, 0x0C000000].getD n 0xFFFFFFFF

private theorem yields_scarceWords : scarceWords.Yields 2 0 := ⟨4, by decide⟩

/-- Two letters are drawn where no third one could be. -/
theorem identifier_takes_scarceWords :
    scarceWords.Yields 2 0 ∧ (∀ n, 4 ≤ n → selectsLetter (scarceWords n) = false) ∧
      scarceWords.identifier 3 0 yields_scarceWords = (text "_CD", 4) ∧
      scarceWords.Draws 0 4 (text "CD") := by
  have hdrawn : scarceWords.identifier 3 0 yields_scarceWords = (text "_CD", 4) := by cbv
  obtain ⟨value, letters, taken, heq, -, hvalue, -, hdraws, -⟩ :=
    identifier_takes_what_it_needs scarceWords 3 0 yields_scarceWords
  obtain ⟨rfl, htaken⟩ := Prod.mk.inj (heq.symm.trans hdrawn)
  obtain rfl : taken = 4 := by omega
  obtain rfl : text "CD" = letters := (List.cons.inj (hvalue (by decide))).2
  refine ⟨yields_scarceWords, fun n hn => ?_, hdrawn, hdraws⟩
  rw [scarceWords, List.getD_eq_getElem?_getD, List.getElem?_eq_none hn]
  decide

end Words

end TaggedSource
